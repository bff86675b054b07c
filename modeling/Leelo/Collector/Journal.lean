import Leelo.Cli.Durability

/-!
# Reading an enrollment journal

The collector reads journals without trusting them. It accepts only whole lines with the
phases in order, a bundle record in second place and one identity in all others. The JSON
library is left free; it reads back the records that were printed. The reader then agrees
with the writer at every byte where a journal can end.
-/

namespace Leelo.Collector

open Leelo.Core
open Leelo.Cli (journalLines phaseRecord bundleRecord uuidText pendingPath withExtension)
open Leelo.Crypto (Primitives ascii)
open Leelo.Envelope (Descriptor)

/-- The largest journal that is read. -/
def journalLimit : Nat := 64 * 1024

/-- A line that names the binding, the volume and the slot. -/
structure IdentityRecord where
  phase : Bytes
  bindingId : Bytes
  volumeUuid : Bytes
  slot : UInt8
  deriving DecidableEq, Repr

/-- The line that names the bundle. -/
structure BundleRecord where
  phase : Bytes
  path : Bytes
  sha384 : Bytes
  deriving DecidableEq, Repr

/-- The JSON library at the two record types. -/
structure JsonReader where
  identity : Bytes → Option IdentityRecord
  bundle : Bytes → Option BundleRecord

/-- The records that it reads back: their fields are text and stand in the order of names. -/
structure JsonReader.ReadsPrinted (reader : JsonReader) : Prop where
  identity : ∀ record : IdentityRecord, isUtf8 record.bindingId = true →
    isUtf8 record.phase = true → isUtf8 record.volumeUuid = true →
    reader.identity (printObject
      [(ascii "binding_id", .string record.bindingId), (ascii "phase", .string record.phase),
       (ascii "slot", .number record.slot.toNat),
       (ascii "volume_uuid", .string record.volumeUuid)]) = some record
  bundle : ∀ record : BundleRecord, isUtf8 record.path = true → isUtf8 record.phase = true →
    isUtf8 record.sha384 = true →
    reader.bundle (printObject
      [(ascii "path", .string record.path), (ascii "phase", .string record.phase),
       (ascii "sha384", .string record.sha384)]) = some record

/-- The value of a hex digit, in either case. -/
def toDigit (byte : UInt8) : Option UInt8 :=
  if 48 ≤ byte ∧ byte ≤ 57 then some (byte - 48)
  else if 97 ≤ byte ∧ byte ≤ 102 then some (byte - 87)
  else if 65 ≤ byte ∧ byte ≤ 70 then some (byte - 55)
  else none

/-- A lower-case hexadecimal digit. -/
def isLowerHex (byte : UInt8) : Bool := (48 ≤ byte ∧ byte ≤ 57) ∨ (97 ≤ byte ∧ byte ≤ 102)

/-- The bytes of pairs of digits. -/
def hexPairs : Bytes → Option Bytes
  | high :: low :: rest => do
    let value := (← toDigit high) * 16 + (← toDigit low)
    return value :: (← hexPairs rest)
  | _ => some []

/-- Bytes of a fixed length in lower-case digits. -/
def lowerHex (n : Nat) (value : Bytes) : Option (Vector UInt8 n) :=
  if value.length ≠ n * 2 ∨ value.all isLowerHex = false then none
  else (hexPairs value).bind (tryInto n)

/-- What a journal identifies: binding, volume and slot. -/
abbrev Identity := Vector UInt8 32 × Vector UInt8 16 × UInt8

/-- The identity a line names, where it is well formed. -/
def journalIdentity (record : IdentityRecord) : Option Identity := do
  let binding ← lowerHex 32 record.bindingId
  guard (record.volumeUuid.length = 36 ∧
    [8, 13, 18, 23].all fun index => record.volumeUuid[index]? = some 45)
  let volume ← lowerHex 16 (record.volumeUuid.filter (· ≠ 45))
  guard (binding ≠ Vector.replicate 32 0 ∧ volume ≠ Vector.replicate 16 0 ∧ record.slot < 32)
  return (binding, volume, record.slot)

/-- The phases of a journal in their order. -/
def phases : List Bytes :=
  [ascii "preflight", ascii "pending-bundle-durable", ascii "prepared-and-recovery-tested",
   ascii "token-written-and-slot-tested"]

section Reader

variable (reader : JsonReader)

/-- The identity after the line at position `count`. -/
def readLine (count : Nat) (identity : Option Identity) (line : Bytes) :
    Option (Option Identity) := do
  guard (line.length ≤ 8192)
  let phase ← phases[count]?
  if count = 1 then
    let record ← reader.bundle line
    guard (record.phase = phase ∧ record.path ≠ [] ∧ (lowerHex 48 record.sha384).isSome)
    return identity
  else
    let record ← reader.identity line
    guard (record.phase = phase)
    let observed ← journalIdentity record
    guard (identity.all (· = observed))
    return some observed

/-- Reads the lines in the order of the phases. -/
def readLines : Nat → Option Identity → Bool → List Bytes → Option Bool
  | _, _, committed, [] => some committed
  | count, identity, _, line :: lines => do
    let identity ← readLine reader count identity line
    readLines (count + 1) identity (count == phases.length - 1) lines

/-- Whether a journal is complete; none where it is not a journal. -/
def journalCommitted (bytes : Bytes) : Option Bool :=
  if bytes = [] ∨ bytes.getLast? ≠ some newline ∨ bytes.length > journalLimit then none
  else readLines reader 0 none false (linesOf bytes)

/-- The line is a well-formed bundle record. -/
def BundleLine (phase line : Bytes) : Prop :=
  ∃ record, reader.bundle line = some record ∧ record.phase = phase ∧ record.path ≠ [] ∧
    (lowerHex 48 record.sha384).isSome = true

/-- The line is a phase record with this identity. -/
def IdentityLine (phase line : Bytes) (identity : Identity) : Prop :=
  ∃ record, reader.identity line = some record ∧ record.phase = phase ∧
    journalIdentity record = some identity

variable {reader}

/-- What a line of each phase must be. -/
theorem readLine_eq_some {count : Nat} {identity result : Option Identity} {line : Bytes} :
    readLine reader count identity line = some result ↔
      line.length ≤ 8192 ∧ ∃ phase, phases[count]? = some phase ∧
        (count = 1 ∧ BundleLine reader phase line ∧ result = identity ∨
          count ≠ 1 ∧ ∃ observed, IdentityLine reader phase line observed ∧
            identity.all (· = observed) = true ∧ result = some observed) := by
  unfold readLine
  rw [guard_bind_eq_some, Option.bind_eq_bind, Option.bind_eq_some_iff]
  refine and_congr_right fun _ => exists_congr fun phase => and_congr_right fun _ => ?_
  by_cases hcount : count = 1
  · rw [if_pos hcount]
    constructor
    · intro h
      obtain ⟨record, hrecord, h⟩ := Option.bind_eq_some_iff.mp h
      obtain ⟨hcheck, h⟩ := guard_bind_eq_some.mp h
      exact .inl ⟨hcount, ⟨record, hrecord, hcheck⟩, (Option.some.inj h).symm⟩
    · rintro (⟨-, ⟨record, hrecord, hcheck⟩, rfl⟩ | ⟨hne, -⟩)
      · exact Option.bind_eq_some_iff.mpr ⟨record, hrecord, guard_bind_eq_some.mpr ⟨hcheck, rfl⟩⟩
      · exact absurd hcount hne
  · rw [if_neg hcount]
    constructor
    · intro h
      obtain ⟨record, hrecord, h⟩ := Option.bind_eq_some_iff.mp h
      obtain ⟨hphase, h⟩ := guard_bind_eq_some.mp h
      obtain ⟨observed, hobserved, h⟩ := Option.bind_eq_some_iff.mp h
      obtain ⟨hsame, h⟩ := guard_bind_eq_some.mp h
      exact .inr ⟨hcount, observed, ⟨record, hrecord, hphase, hobserved⟩, hsame,
        (Option.some.inj h).symm⟩
    · rintro (⟨heq, -⟩ | ⟨-, observed, ⟨record, hrecord, hphase, hobserved⟩, hsame, rfl⟩)
      · exact absurd heq hcount
      · refine Option.bind_eq_some_iff.mpr ⟨record, hrecord, guard_bind_eq_some.mpr ⟨hphase, ?_⟩⟩
        exact Option.bind_eq_some_iff.mpr ⟨observed, hobserved,
          guard_bind_eq_some.mpr ⟨hsame, rfl⟩⟩

end Reader

private theorem hexDigit_fin : ∀ byte : Fin 256,
    toDigit (hexDigit (UInt8.ofNat byte.val / 16)) = some (UInt8.ofNat byte.val / 16) ∧
    toDigit (hexDigit (UInt8.ofNat byte.val % 16)) = some (UInt8.ofNat byte.val % 16) ∧
    isLowerHex (hexDigit (UInt8.ofNat byte.val / 16)) = true ∧
    isLowerHex (hexDigit (UInt8.ofNat byte.val % 16)) = true ∧
    UInt8.ofNat byte.val / 16 * 16 + UInt8.ofNat byte.val % 16 = UInt8.ofNat byte.val := by
  decide +kernel

private theorem hexDigit_spec (byte : UInt8) :
    toDigit (hexDigit (byte / 16)) = some (byte / 16) ∧
    toDigit (hexDigit (byte % 16)) = some (byte % 16) ∧
    isLowerHex (hexDigit (byte / 16)) = true ∧ isLowerHex (hexDigit (byte % 16)) = true ∧
    byte / 16 * 16 + byte % 16 = byte := by
  have := hexDigit_fin ⟨byte.toNat, byte.toNat_lt⟩
  rwa [UInt8.ofNat_toNat] at this

theorem hexEncode_cons (byte : UInt8) (rest : Bytes) : hexEncode (byte :: rest) =
    hexDigit (byte / 16) :: hexDigit (byte % 16) :: hexEncode rest := rfl

/-- Digits of joined bytes. -/
theorem hexEncode_append (bytes bytes' : Bytes) :
    hexEncode (bytes ++ bytes') = hexEncode bytes ++ hexEncode bytes' := List.flatMap_append

theorem hexPairs_hexEncode (bytes : Bytes) : hexPairs (hexEncode bytes) = some bytes := by
  induction bytes with
  | nil => rfl
  | cons byte rest ih =>
    obtain ⟨hhigh, hlow, -, -, hvalue⟩ := hexDigit_spec byte
    rw [hexEncode_cons, hexPairs, hhigh, hlow, ih]
    exact congrArg (fun value => some (value :: rest)) hvalue

theorem isLowerHex_of_mem_hexEncode {bytes : Bytes} {digit : UInt8}
    (h : digit ∈ hexEncode bytes) : isLowerHex digit = true := by
  obtain ⟨byte, -, hdigit⟩ := List.mem_flatMap.mp h
  obtain ⟨-, -, hhigh, hlow, -⟩ := hexDigit_spec byte
  rcases List.mem_cons.mp hdigit with rfl | hdigit
  · exact hhigh
  · cases List.mem_singleton.mp hdigit
    exact hlow

theorem lowerHex_hexEncode {n : Nat} (value : Vector UInt8 n) :
    lowerHex n (hexEncode value.toList) = some value := by
  have hlength : (hexEncode value.toList).length = n * 2 := by
    rw [length_hexEncode, Vector.length_toList, Nat.mul_comm]
  have hall : (hexEncode value.toList).all isLowerHex = true :=
    List.all_eq_true.mpr fun _ => isLowerHex_of_mem_hexEncode
  unfold lowerHex
  rw [if_neg (by simp [hlength, hall]), hexPairs_hexEncode, Option.bind_some, tryInto_toList]

/-- A digit is below 128 and no dash. -/
private theorem isLowerHex_lt {digit : UInt8} (h : isLowerHex digit = true) :
    digit < 128 ∧ digit ≠ 45 := by
  have hrange : (48 ≤ digit ∧ digit ≤ 57) ∨ (97 ≤ digit ∧ digit ≤ 102) := by
    simpa only [isLowerHex, decide_eq_true_eq] using h
  constructor
  · rcases hrange with ⟨-, hhigh⟩ | ⟨-, hhigh⟩
    · exact UInt8.lt_of_le_of_lt hhigh (by decide)
    · exact UInt8.lt_of_le_of_lt hhigh (by decide)
  · rintro rfl
    revert hrange
    decide

/-- Digits are valid text. -/
theorem isUtf8_hexEncode (bytes : Bytes) : isUtf8 (hexEncode bytes) = true :=
  isUtf8_of_ascii fun _ h => (isLowerHex_lt (isLowerHex_of_mem_hexEncode h)).1

/-- Literals are valid text. -/
theorem isUtf8_ascii (text : String) : isUtf8 (ascii text) = true := by
  unfold isUtf8 ascii
  rw [Array.toArray_toList]
  exact ByteArray.validateUTF8_eq_true_iff.mpr text.isValidUTF8

/-- The groups of a UUID. -/
private theorem toList_groups (uuid : Vector UInt8 16) :
    uuid.toList = (uuid.toList.drop 0).take 4 ++ ((uuid.toList.drop 4).take 2 ++
      ((uuid.toList.drop 6).take 2 ++ ((uuid.toList.drop 8).take 2 ++
        (uuid.toList.drop 10).take 6))) := by
  have hlast : (uuid.toList.drop 10).take 6 = uuid.toList.drop 10 :=
    List.take_of_length_le (by rw [List.length_drop, Vector.length_toList])
  have hstep : ∀ start size, (uuid.toList.drop start).take size ++ uuid.toList.drop (start + size) =
      uuid.toList.drop start := by
    intro start size
    rw [← List.drop_drop, List.take_append_drop]
  rw [hlast, hstep 8 2, hstep 6 2, hstep 4 2, hstep 0 4, List.drop_zero]

private theorem filter_hexEncode (bytes : Bytes) :
    (hexEncode bytes).filter (· ≠ 45) = hexEncode bytes :=
  List.filter_eq_self.mpr fun _ h =>
    decide_eq_true (isLowerHex_lt (isLowerHex_of_mem_hexEncode h)).2

theorem filter_uuidText (uuid : Vector UInt8 16) :
    (uuidText uuid).filter (· ≠ 45) = hexEncode uuid.toList := by
  have hcut : ∀ rest : Bytes, (45 :: rest).filter (· ≠ 45) = rest.filter (· ≠ 45) := fun _ => rfl
  conv_rhs => rw [toList_groups uuid]
  simp only [uuidText, List.filter_append, hcut, filter_hexEncode, hexEncode_append]

private theorem length_group (uuid : Vector UInt8 16) {start size : Nat} (h : start + size ≤ 16) :
    (hexEncode ((uuid.toList.drop start).take size)).length = 2 * size := by
  rw [length_hexEncode, List.length_take, List.length_drop, Vector.length_toList]
  omega

theorem length_uuidText (uuid : Vector UInt8 16) : (uuidText uuid).length = 36 := by
  have hgroup := fun start size => @length_group uuid start size
  simp only [uuidText, List.length_append, List.length_cons, hgroup 0 4 (by omega),
    hgroup 4 2 (by omega), hgroup 6 2 (by omega), hgroup 8 2 (by omega), hgroup 10 6 (by omega)]

private theorem getElem?_separator {before rest : Bytes} {index : Nat}
    (h : before.length = index) : (before ++ 45 :: rest)[index]? = some 45 := by
  rw [List.getElem?_append_right (Nat.le_of_eq h), h, Nat.sub_self]
  rfl

private theorem getElem?_past {before rest : Bytes} {start : Nat} (h : before.length = start)
    (index : Nat) : (before ++ 45 :: rest)[start + 1 + index]? = rest[index]? := by
  rw [List.getElem?_append_right (by omega), show start + 1 + index - before.length = index + 1 by
    omega, List.getElem?_cons_succ]

/-- The dashes stand where the reader looks for them. -/
theorem getElem?_uuidText (uuid : Vector UInt8 16) :
    ∀ index ∈ [8, 13, 18, 23], (uuidText uuid)[index]? = some 45 := by
  have hgroup := fun start size => @length_group uuid start size
  intro index hindex
  -- step over the groups before each separator
  simp only [List.mem_cons, List.not_mem_nil, or_false] at hindex
  rcases hindex with rfl | rfl | rfl | rfl
  · exact getElem?_separator (hgroup 0 4 (by omega))
  · refine (getElem?_past (hgroup 0 4 (by omega)) 4).trans ?_
    exact getElem?_separator (hgroup 4 2 (by omega))
  · refine (getElem?_past (hgroup 0 4 (by omega)) 9).trans ?_
    refine (getElem?_past (hgroup 4 2 (by omega)) 4).trans ?_
    exact getElem?_separator (hgroup 6 2 (by omega))
  · refine (getElem?_past (hgroup 0 4 (by omega)) 14).trans ?_
    refine (getElem?_past (hgroup 4 2 (by omega)) 9).trans ?_
    refine (getElem?_past (hgroup 6 2 (by omega)) 4).trans ?_
    exact getElem?_separator (hgroup 8 2 (by omega))

/-- An identifier is valid text. -/
theorem isUtf8_uuidText (uuid : Vector UInt8 16) : isUtf8 (uuidText uuid) = true := by
  refine isUtf8_of_ascii fun byte hbyte => ?_
  by_cases hcut : byte = 45
  · rw [hcut]
    decide
  · have hmem : byte ∈ (uuidText uuid).filter (· ≠ 45) :=
      List.mem_filter.mpr ⟨hbyte, decide_eq_true hcut⟩
    rw [filter_uuidText] at hmem
    exact (isLowerHex_lt (isLowerHex_of_mem_hexEncode hmem)).1

/-- What is cut off a reversed text starts with a byte below 128 in the text itself. -/
private def CutsLow (cut : Bytes) : Prop := ∀ byte, cut.getLast? = some byte → byte < 128

private theorem cutsLow_nil : CutsLow [] := fun _ h => by cases h

/-- Cuts compose. -/
private theorem CutsLow.append {cut cut' : Bytes} (h : CutsLow cut) (h' : CutsLow cut') :
    CutsLow (cut ++ cut') := by
  intro byte hbyte
  rw [List.getLast?_append] at hbyte
  cases hlast : cut'.getLast? with
  | none =>
    rw [hlast] at hbyte
    exact h byte hbyte
  | some last =>
    rw [hlast] at hbyte
    cases hbyte
    exact h' byte hlast

private theorem cutsLow_of_getLast {before : Bytes} {last : UInt8} (h : last < 128) :
    CutsLow (before ++ [last]) := by
  intro byte hbyte
  rw [List.getLast?_concat] at hbyte
  cases hbyte
  exact h

/-- Trailing separators are cut off. -/
private theorem trimReversed_cuts (path : Bytes) :
    ∃ cut, path = cut ++ Cli.trimReversed path ∧ CutsLow cut := by
  induction path using Cli.trimReversed.induct with
  | case1 rest ih =>
    obtain ⟨cut, hrest, hcut⟩ := ih
    refine ⟨[] ++ [47] ++ cut, ?_, (cutsLow_of_getLast (by decide)).append hcut⟩
    rw [Cli.trimReversed]
    exact congrArg (47 :: ·) hrest
  | case2 rest ih =>
    obtain ⟨cut, hrest, hcut⟩ := ih
    refine ⟨[46] ++ [47] ++ cut, ?_, (cutsLow_of_getLast (by decide)).append hcut⟩
    rw [Cli.trimReversed]
    exact congrArg (46 :: 47 :: ·) hrest
  | case3 path hslash hdot =>
    refine ⟨[], ?_, cutsLow_nil⟩
    rw [Cli.trimReversed]
    · rfl
    · exact hslash
    · exact hdot

/-- The extension is cut off. -/
private theorem stemReversed_cuts (name : Bytes) :
    ∃ cut, name = cut ++ Cli.stemReversed name ∧ CutsLow cut := by
  unfold Cli.stemReversed
  cases hdrop : name.dropWhile (· ≠ 46) with
  | nil => exact ⟨[], rfl, cutsLow_nil⟩
  | cons dot before =>
    by_cases hempty : before.isEmpty = true
    · simp only [if_pos hempty]
      exact ⟨[], rfl, cutsLow_nil⟩
    · simp only [if_neg hempty]
      have hdot : dot = 46 := by
        have hhead := List.head?_dropWhile_not (fun byte : UInt8 => decide (byte ≠ 46)) name
        rw [hdrop] at hhead
        simpa using hhead
      refine ⟨name.takeWhile (· ≠ 46) ++ [dot], ?_, cutsLow_of_getLast (by rw [hdot]; decide)⟩
      rw [List.append_assoc, List.singleton_append, ← hdrop, List.takeWhile_append_dropWhile]

/-- The pending path is the path itself or starts with a part of it that ends between two
characters. -/
private theorem pendingPath_cases (path : Bytes) :
    pendingPath path = path ∨ ∃ stem rest tail, path = stem ++ rest ∧
      (∀ byte, rest.head? = some byte → byte < 128) ∧ isUtf8 tail = true ∧ tail ≠ [] ∧
      pendingPath path = stem ++ tail := by
  obtain ⟨cut, htrim, hcut⟩ := trimReversed_cuts path.reverse
  obtain ⟨cut', hstem, hcut'⟩ :=
    stemReversed_cuts ((Cli.trimReversed path.reverse).takeWhile (· ≠ 47))
  have hdir := (Cli.trimReversed path.reverse).takeWhile_append_dropWhile (p := (· ≠ 47))
  unfold pendingPath withExtension
  dsimp only
  generalize (Cli.trimReversed path.reverse).dropWhile (· ≠ 47) = dir at hdir ⊢
  generalize (Cli.trimReversed path.reverse).takeWhile (· ≠ 47) = name at hdir hstem ⊢
  by_cases hname : name = [] ∨ name = [46] ∨ name = [46, 46]
  · exact .inl (if_pos hname)
  rw [if_neg hname]
  have hpath : path = (Cli.stemReversed name ++ dir).reverse ++ (cut ++ cut').reverse := by
    rw [← List.reverse_append, ← List.reverse_inj, List.reverse_reverse, List.append_assoc,
      ← List.append_assoc cut', ← hstem, hdir]
    exact htrim
  by_cases hparent : Cli.stemReversed name = [46] ∧ Cli.trimReversed path.reverse = path.reverse
  · refine .inr ⟨dir.reverse, [46] ++ (cut ++ cut').reverse, [46, 46], ?_, ?_, ?_, ?_,
      if_pos hparent⟩
    · rw [hparent.1, List.reverse_append, List.append_assoc] at hpath
      exact hpath
    · rintro byte hbyte
      cases hbyte
      decide
    · exact isUtf8_ascii ".."
    · exact List.cons_ne_nil _ _
  · refine .inr ⟨_, _, 46 :: ascii "pending.leelo", hpath, fun byte hbyte => ?_, ?_, ?_,
      if_neg hparent⟩
    · rw [List.head?_reverse] at hbyte
      exact (hcut.append hcut') byte hbyte
    · exact isUtf8_ascii ".pending.leelo"
    · exact List.cons_ne_nil _ _

theorem pendingPath_ne_nil {path : Bytes} (h : path ≠ []) : pendingPath path ≠ [] := by
  rcases pendingPath_cases path with hsame | ⟨stem, rest, tail, -, -, -, htail, hpending⟩
  · rwa [hsame]
  · rw [hpending]
    exact List.append_ne_nil_of_right_ne_nil _ htail

theorem isUtf8_pendingPath {path : Bytes} (h : isUtf8 path = true) :
    isUtf8 (pendingPath path) = true := by
  rcases pendingPath_cases path with hsame | ⟨stem, rest, tail, hpath, hrest, htail, -, hpending⟩
  · rwa [hsame]
  · rw [hpending]
    exact isUtf8_append (isUtf8_of_append (hpath ▸ h) hrest) htail

/-- What the reader asks of a descriptor. -/
structure Identifies (d : Descriptor) : Prop where
  binding : d.bindingId ≠ Vector.replicate 32 0
  volume : d.volumeUuid ≠ Vector.replicate 16 0
  slot : d.slot < 32

theorem journalIdentity_written {d : Descriptor} (h : Identifies d) (phase : Bytes) :
    journalIdentity ⟨phase, hexEncode d.bindingId.toList, uuidText d.volumeUuid, d.slot⟩ =
      some (d.bindingId, d.volumeUuid, d.slot) := by
  have hseparators : ([8, 13, 18, 23].all fun index =>
      (uuidText d.volumeUuid)[index]? = some 45) = true :=
    List.all_eq_true.mpr fun index hindex => decide_eq_true (getElem?_uuidText _ index hindex)
  refine Option.bind_eq_some_iff.mpr ⟨_, lowerHex_hexEncode d.bindingId, ?_⟩
  refine guard_bind_eq_some.mpr ⟨⟨length_uuidText _, hseparators⟩, ?_⟩
  have hvolume : lowerHex 16 ((uuidText d.volumeUuid).filter (· ≠ 45)) = some d.volumeUuid := by
    rw [filter_uuidText, lowerHex_hexEncode]
  refine Option.bind_eq_some_iff.mpr ⟨_, hvolume, ?_⟩
  exact guard_bind_eq_some.mpr ⟨⟨h.binding, h.volume, h.slot⟩, rfl⟩

private theorem length_decimal_slot : ∀ slot : Fin 256, (decimal slot.val).length ≤ 3 := by
  decide +kernel

private theorem length_keys : (ascii "binding_id").length = 10 ∧ (ascii "phase").length = 5 ∧
    (ascii "slot").length = 4 ∧ (ascii "volume_uuid").length = 11 := by
  decide +kernel

/-- The lines of the phases are short enough to be read. -/
theorem length_phaseRecord (name : String) (d : Descriptor) (hname : (ascii name).length ≤ 64) :
    (printObject (phaseRecord name d)).length ≤ 8192 := by
  have hslot : (decimal d.slot.toNat).length ≤ 3 :=
    length_decimal_slot ⟨d.slot.toNat, d.slot.toNat_lt⟩
  have hquoted := length_quoted_le
  have hbinding := hquoted (hexEncode d.bindingId.toList)
  have hphase := hquoted (ascii name)
  have huuid := hquoted (uuidText d.volumeUuid)
  have hkeys := length_keys
  have hfirst := hquoted (ascii "binding_id")
  have hsecond := hquoted (ascii "phase")
  have hthird := hquoted (ascii "slot")
  have hfourth := hquoted (ascii "volume_uuid")
  rw [length_hexEncode, Vector.length_toList] at hbinding
  rw [length_uuidText] at huuid
  have hfields := length_intercalate_le (44 : UInt8) ((phaseRecord name d).map printField)
  simp only [phaseRecord, printField, Scalar.print, List.map_cons, List.map_nil, List.sum_cons,
    List.sum_nil, List.length_append, List.length_cons] at hfields
  simp only [printObject, phaseRecord, printField, Scalar.print, List.map_cons, List.map_nil,
    List.length_append, List.length_cons, List.length_nil]
  omega

section Written

variable {reader : JsonReader} {P : Primitives} {path envelope : Bytes} {d : Descriptor}

/-- The line of a phase is read back. -/
theorem readLine_phase (hreader : reader.ReadsPrinted) (hd : Identifies d) {count : Nat}
    {name : String} (hcount : count ≠ 1) (hphase : phases[count]? = some (ascii name))
    (hname : (ascii name).length ≤ 64) {identity : Option Identity}
    (hidentity : identity.all (· = (d.bindingId, d.volumeUuid, d.slot)) = true) :
    readLine reader count identity (printObject (phaseRecord name d)) =
      some (some (d.bindingId, d.volumeUuid, d.slot)) := by
  have hread := hreader.identity
    ⟨ascii name, hexEncode d.bindingId.toList, uuidText d.volumeUuid, d.slot⟩
    (isUtf8_hexEncode _) (isUtf8_ascii _) (isUtf8_uuidText _)
  refine readLine_eq_some.mpr ⟨length_phaseRecord name d hname, _, hphase, .inr ⟨hcount,
    (d.bindingId, d.volumeUuid, d.slot), ?_⟩⟩
  exact ⟨⟨_, hread, rfl, journalIdentity_written hd _⟩, hidentity, rfl⟩

theorem readLine_bundle (hreader : reader.ReadsPrinted) (hutf8 : isUtf8 path = true)
    (hpath : path ≠ []) (hlength : (printObject (bundleRecord P path envelope)).length ≤ 8192)
    (identity : Option Identity) :
    readLine reader 1 identity (printObject (bundleRecord P path envelope)) = some identity := by
  have hread := hreader.bundle
    ⟨ascii "pending-bundle-durable", pendingPath path, hexEncode (P.sha384 envelope).toList⟩
    (isUtf8_pendingPath hutf8) (isUtf8_ascii _) (isUtf8_hexEncode _)
  have hdigest : (lowerHex 48 (hexEncode (P.sha384 envelope).toList)).isSome = true := by
    rw [lowerHex_hexEncode]
    rfl
  refine readLine_eq_some.mpr ⟨hlength, _, rfl, .inl ⟨rfl, ?_, rfl⟩⟩
  exact ⟨_, hread, rfl, pendingPath_ne_nil hpath, hdigest⟩

/-- The lines of a complete journal without their line breaks. -/
def journalObjects (P : Primitives) (path : Bytes) (d : Descriptor) (envelope : Bytes) :
    List Bytes :=
  [printObject (phaseRecord "preflight" d),
   printObject (bundleRecord P path envelope),
   printObject (phaseRecord "prepared-and-recovery-tested" d),
   printObject (phaseRecord "token-written-and-slot-tested" d)]

theorem flatten_journalLines (count : Nat) :
    ((journalLines P path d envelope).take count).flatten =
      unlines ((journalObjects P path d envelope).take count) := by
  unfold unlines
  rw [List.map_take]
  rfl

private theorem length_names : (ascii "preflight").length ≤ 64 ∧
    (ascii "prepared-and-recovery-tested").length ≤ 64 ∧
    (ascii "token-written-and-slot-tested").length ≤ 64 := by
  decide +kernel

/-- A journal that ends after a record is read as far as it goes. -/
theorem readLines_written (hreader : reader.ReadsPrinted) (hd : Identifies d)
    (hutf8 : isUtf8 path = true) (hpath : path ≠ [])
    (hfits : (printObject (bundleRecord P path envelope)).length ≤ 8192) {count : Nat}
    (hcount : count ≤ 4) :
    readLines reader 0 none false ((journalObjects P path d envelope).take count) =
      some (decide (count = 4)) := by
  obtain ⟨hname, hname', hname''⟩ := length_names
  have hsame : (some (d.bindingId, d.volumeUuid, d.slot)).all
      (· = (d.bindingId, d.volumeUuid, d.slot)) = true := decide_eq_true rfl
  have hfirst : readLine reader 0 none (printObject (phaseRecord "preflight" d)) = _ :=
    readLine_phase hreader hd (by decide) rfl hname rfl
  have hsecond := readLine_bundle hreader hutf8 hpath hfits
    (some (d.bindingId, d.volumeUuid, d.slot))
  have hthird : readLine reader 2 _
      (printObject (phaseRecord "prepared-and-recovery-tested" d)) = _ :=
    readLine_phase hreader hd (by decide) rfl hname' hsame
  have hfourth : readLine reader 3 _
      (printObject (phaseRecord "token-written-and-slot-tested" d)) = _ :=
    readLine_phase hreader hd (by decide) rfl hname'' hsame
  interval_cases count <;>
    simp only [journalObjects, List.take_zero, List.take_succ_cons, readLines, hfirst, hsecond,
      hthird, hfourth, Option.bind_eq_bind, Option.bind_some] <;> rfl

private theorem newline_notMem_objects :
    ∀ line ∈ journalObjects P path d envelope, newline ∉ line := by
  intro line hline
  simp only [journalObjects, List.mem_cons, List.not_mem_nil, or_false] at hline
  rcases hline with rfl | rfl | rfl | rfl <;> exact newline_notMem_printObject _

private theorem length_objects
    (hfits : (printObject (bundleRecord P path envelope)).length ≤ 8192) :
    ∀ line ∈ journalObjects P path d envelope, line.length ≤ 8192 := by
  obtain ⟨hname, hname', hname''⟩ := length_names
  intro line hline
  simp only [journalObjects, List.mem_cons, List.not_mem_nil, or_false] at hline
  rcases hline with rfl | rfl | rfl | rfl
  · exact length_phaseRecord _ _ hname
  · exact hfits
  · exact length_phaseRecord _ _ hname'
  · exact length_phaseRecord _ _ hname''

private theorem getLast?_unlines {lines : List Bytes} (h : lines ≠ []) :
    unlines lines ≠ [] ∧ (unlines lines).getLast? = some newline := by
  rw [unlines_eq_intercalate h]
  exact ⟨List.append_ne_nil_of_right_ne_nil _ (List.cons_ne_nil _ _), List.getLast?_concat⟩

/-- The first lines of a journal are read, and complete exactly with the fourth. -/
theorem journalCommitted_written (hreader : reader.ReadsPrinted) (hd : Identifies d)
    (hutf8 : isUtf8 path = true) (hpath : path ≠ [])
    (hfits : (printObject (bundleRecord P path envelope)).length ≤ 8192) {count : Nat}
    (hpos : 0 < count) (hcount : count ≤ 4) :
    journalCommitted reader (unlines ((journalObjects P path d envelope).take count)) =
      some (decide (count = 4)) := by
  have hne : (journalObjects P path d envelope).take count ≠ [] := by
    rw [Ne, List.take_eq_nil_iff]
    rintro (rfl | hnil)
    · exact absurd hpos (Nat.lt_irrefl 0)
    · cases hnil
  have hmem : ∀ line ∈ (journalObjects P path d envelope).take count,
      line ∈ journalObjects P path d envelope := fun _ h => List.mem_of_mem_take h
  have hlength := length_unlines_le fun line hline =>
    length_objects (d := d) hfits line (hmem line hline)
  have htake : ((journalObjects P path d envelope).take count).length ≤ 4 :=
    List.length_take_le' count _
  have hlimit :
      (unlines ((journalObjects P path d envelope).take count)).length ≤ journalLimit := by
    unfold journalLimit
    omega
  obtain ⟨hnil, hlast⟩ := getLast?_unlines hne
  unfold journalCommitted
  rw [if_neg, linesOf_unlines hne fun line hline => newline_notMem_objects line (hmem line hline)]
  · exact readLines_written hreader hd hutf8 hpath hfits hcount
  · rintro (h | h | h)
    · exact hnil h
    · exact h hlast
    · exact absurd hlimit (Nat.not_le_of_lt h)

/-- A text that ends inside a line is not read. -/
theorem journalCommitted_part {before part line : Bytes} (hpart : part <+: line)
    (hne : part ≠ []) (hline : newline ∉ line) :
    journalCommitted reader (before ++ part) = none := by
  unfold journalCommitted
  rw [if_pos]
  right
  left
  rw [List.getLast?_append]
  obtain ⟨last, hlast⟩ : ∃ last, part.getLast? = some last :=
    ⟨_, List.getLast?_eq_some_getLast hne⟩
  rw [hlast, Option.some_or]
  rintro ⟨rfl⟩
  exact hline (hpart.subset (List.mem_of_getLast? hlast))

end Written

/-- Lines are read one by one. -/
private theorem readLines_cons {reader : JsonReader} {count : Nat} {identity : Option Identity}
    {committed result : Bool} {line : Bytes} {lines : List Bytes}
    (h : readLines reader count identity committed (line :: lines) = some result) :
    ∃ identity', readLine reader count identity line = some identity' ∧
      readLines reader (count + 1) identity' (count == phases.length - 1) lines = some result :=
  Option.bind_eq_some_iff.mp h

/-- Lines that are read to the end: the phases in order, with one identity. -/
theorem readLines_committed {reader : JsonReader} {lines : List Bytes}
    (h : readLines reader 0 none false lines = some true) :
    ∃ first bundle third fourth identity, lines = [first, bundle, third, fourth] ∧
      IdentityLine reader (ascii "preflight") first identity ∧
      BundleLine reader (ascii "pending-bundle-durable") bundle ∧
      IdentityLine reader (ascii "prepared-and-recovery-tested") third identity ∧
      IdentityLine reader (ascii "token-written-and-slot-tested") fourth identity := by
  rcases lines with _ | ⟨first, _ | ⟨bundle, _ | ⟨third, _ | ⟨fourth, rest⟩⟩⟩⟩
  · cases h
  · obtain ⟨_, -, h⟩ := readLines_cons h
    cases h
  · obtain ⟨_, -, h⟩ := readLines_cons h
    obtain ⟨_, -, h⟩ := readLines_cons h
    cases h
  · obtain ⟨_, -, h⟩ := readLines_cons h
    obtain ⟨_, -, h⟩ := readLines_cons h
    obtain ⟨_, -, h⟩ := readLines_cons h
    cases h
  obtain ⟨_, hfirst, h⟩ := readLines_cons h
  obtain ⟨_, hbundle, h⟩ := readLines_cons h
  obtain ⟨_, hthird, h⟩ := readLines_cons h
  obtain ⟨_, hfourth, h⟩ := readLines_cons h
  obtain ⟨-, phase, ⟨⟩, (⟨hcount, -⟩ | ⟨-, identity, hline, -, rfl⟩)⟩ := readLine_eq_some.mp hfirst
  · cases hcount
  obtain ⟨-, phase, ⟨⟩, (⟨-, hbundleLine, rfl⟩ | ⟨hcount, -⟩)⟩ := readLine_eq_some.mp hbundle
  swap
  · exact absurd rfl hcount
  obtain ⟨-, phase, ⟨⟩, (⟨hcount, -⟩ | ⟨-, identity', hline', hsame, rfl⟩)⟩ :=
    readLine_eq_some.mp hthird
  · cases hcount
  obtain ⟨-, phase, ⟨⟩, (⟨hcount, -⟩ | ⟨-, identity'', hline'', hsame', rfl⟩)⟩ :=
    readLine_eq_some.mp hfourth
  · cases hcount
  obtain rfl : identity = identity' := of_decide_eq_true hsame
  obtain rfl : identity = identity'' := of_decide_eq_true hsame'
  cases rest with
  | nil => exact ⟨first, bundle, third, fourth, identity, rfl, hline, hbundleLine, hline', hline''⟩
  | cons line rest =>
    obtain ⟨_, hline, -⟩ := readLines_cons h
    obtain ⟨-, phase, hphase, -⟩ := readLine_eq_some.mp hline
    cases hphase

/-- The reader agrees with the writer wherever a journal ends: a complete one is committed, one that
ends after any of the first three lines is not, and no other is read. Conversely, only four whole
lines of one identity, in order, are committed. -/
theorem journalCommitted_exact (reader : JsonReader) (hreader : reader.ReadsPrinted)
    (P : Primitives) (path : Bytes) (enrollment : Cli.Enrollment)
    (hd : Identifies enrollment.descriptor) (hutf8 : isUtf8 path = true)
    (hfits : (printObject (bundleRecord P path enrollment.prepared.envelope)).length ≤ 8192) :
    let lines := journalLines P path enrollment.descriptor enrollment.prepared.envelope
    (∀ (τ : Type) (closure : Cli.Prepared → τ → Except Luks.Error Int → τ → Prop)
      (s s' : Cli.State τ) (file : Cli.File), s.added = [] →
      Program.Visits (Cli.responds closure) (Cli.enroll P path enrollment) s s' →
      s.files path = none → s'.files path = some file →
      path ≠ [] ∧ file.content <+: lines.flatten) ∧
    (∀ (τ : Type) (closure : Cli.Prepared → τ → Except Luks.Error Int → τ → Prop)
      (s s' : Cli.State τ), s.added = [] →
      Fallible.Runs (Cli.responds closure) Eq (Cli.enroll P path enrollment) s (.ok ()) s' →
      s'.operation.concluded = some "success" →
      ∃ file, s'.files path = some file ∧ file.content = lines.flatten ∧
        file.durable = file.content) ∧
    (path ≠ [] →
      journalCommitted reader lines.flatten = some true ∧
      (∀ count, 0 < count → count < 4 →
        journalCommitted reader (lines.take count).flatten = some false) ∧
      ∀ text, text <+: lines.flatten →
        (∀ count, 0 < count → count ≤ 4 → text ≠ (lines.take count).flatten) →
        journalCommitted reader text = none) ∧
    ∀ bytes, journalCommitted reader bytes = some true →
      ∃ first bundle third fourth identity,
        bytes = unlines [first, bundle, third, fourth] ∧
        (∀ line ∈ [first, bundle, third, fourth], newline ∉ line) ∧
        IdentityLine reader (ascii "preflight") first identity ∧
        BundleLine reader (ascii "pending-bundle-durable") bundle ∧
        IdentityLine reader (ascii "prepared-and-recovery-tested") third identity ∧
        IdentityLine reader (ascii "token-written-and-slot-tested") fourth identity := by
  intro lines
  refine ⟨?_, fun τ closure s s' hadded hruns => ?_, fun hpath => ⟨?_, ?_, ?_⟩, ?_⟩
  · intro τ closure s s' file hadded hvisits hnone hfile
    rcases (Cli.enroll_meets.visits (Cli.stands_start hadded) hvisits).journal with
      hsame | ⟨hpath, -, file', hfile', hcontent⟩
    · cases hfile.symm.trans (hsame.trans hnone)
    · cases hfile.symm.trans hfile'
      exact ⟨hpath, hcontent⟩
  · exact (Cli.enroll_meets.runs (Cli.stands_start hadded) hruns).success
  · exact journalCommitted_written hreader hd hutf8 hpath hfits (by decide) (Nat.le_refl 4)
  · intro count hpos hcount
    rw [flatten_journalLines, journalCommitted_written hreader hd hutf8 hpath hfits hpos
      (Nat.le_of_lt hcount), decide_eq_false (Nat.ne_of_lt hcount)]
  · intro text htext hother
    have hwhole : lines.flatten = unlines (journalObjects P path enrollment.descriptor
        enrollment.prepared.envelope) := flatten_journalLines 4
    obtain ⟨count, part, rfl, hcount, hpart⟩ := prefix_unlines (hwhole ▸ htext)
    by_cases hnil : part = []
    · subst hnil
      rw [List.append_nil] at hother ⊢
      by_cases hzero : count = 0
      · subst hzero
        rfl
      · exact absurd (flatten_journalLines count).symm
          (hother count (Nat.pos_of_ne_zero hzero) hcount)
    · rcases hpart with hpart | ⟨line, hline, hpart⟩
      · exact absurd hpart hnil
      · exact journalCommitted_part hpart hnil
          (newline_notMem_objects line (List.mem_of_getElem? hline))
  · intro bytes hbytes
    unfold journalCommitted at hbytes
    by_cases hform : bytes = [] ∨ bytes.getLast? ≠ some newline ∨ bytes.length > journalLimit
    · rw [if_pos hform] at hbytes
      cases hbytes
    · rw [if_neg hform] at hbytes
      have hlast : bytes.getLast? = some newline :=
        not_not.mp fun hne => hform (.inr (.inl hne))
      obtain ⟨hlines, hclean⟩ := unlines_linesOf hlast
      obtain ⟨first, bundle, third, fourth, identity, hfour, hrecords⟩ :=
        readLines_committed hbytes
      rw [hfour] at hlines hclean
      exact ⟨first, bundle, third, fourth, identity, hlines.symm, hclean, hrecords⟩

/-- Read a number below 256 that a comma follows. -/
def readOctet (text : Bytes) : UInt8 × Bytes :=
  let digits := text.takeWhile (· ≠ 44)
  (digits.foldl (fun value digit => value * 10 + (digit - 48)) 0, text.dropWhile (· ≠ 44))

private theorem decimal_fin : ∀ slot : Fin 256, (decimal slot.val).all (· ≠ 44) = true ∧
    (decimal slot.val).foldl (fun value digit => value * 10 + (digit - 48)) 0 =
      UInt8.ofNat slot.val := by
  decide +kernel

/-- A slot's number is read back. -/
theorem readOctet_decimal (slot : UInt8) (rest : Bytes) :
    readOctet (decimal slot.toNat ++ 44 :: rest) = (slot, 44 :: rest) := by
  obtain ⟨hall, hvalue⟩ := decimal_fin ⟨slot.toNat, slot.toNat_lt⟩
  have hdigits : ∀ digit ∈ decimal slot.toNat, decide (digit ≠ 44) = true :=
    List.all_eq_true.mp hall
  unfold readOctet
  rw [List.takeWhile_append_of_pos hdigits, List.dropWhile_append_of_pos hdigits]
  simp only [ne_eq, not_true_eq_false, decide_false, Bool.false_eq_true, not_false_eq_true,
    List.takeWhile_cons_of_neg, List.append_nil, List.dropWhile_cons_of_neg]
  rw [UInt8.ofNat_toNat] at hvalue
  exact Prod.ext hvalue rfl

/-- Read a field with a string. -/
def readString (first : UInt8) (key text : Bytes) : Option (Bytes × Bytes) :=
  (expect (first :: (quoted key ++ [58, 34])) text).bind unquote

/-- Read a field with a number that another field follows. -/
def readNumber (first : UInt8) (key text : Bytes) : Option (UInt8 × Bytes) :=
  (expect (first :: (quoted key ++ [58])) text).map readOctet

theorem readString_printField (first : UInt8) (key text rest : Bytes) :
    readString first key (first :: (printField (key, .string text) ++ rest)) =
      some (text, rest) := by
  have hsplit : first :: (printField (key, .string text) ++ rest) =
      first :: (quoted key ++ [58, 34]) ++ (text.flatMap escape ++ 34 :: rest) := by
    simp only [printField, Scalar.print, quoted, List.append_assoc, List.cons_append,
      List.nil_append]
  rw [readString, hsplit, expect_append, Option.bind_some, unquote_quoted]

theorem readNumber_printField (first : UInt8) (key rest : Bytes) (slot : UInt8) :
    readNumber first key (first :: (printField (key, .number slot.toNat) ++ 44 :: rest)) =
      some (slot, 44 :: rest) := by
  have hsplit : first :: (printField (key, .number slot.toNat) ++ 44 :: rest) =
      first :: (quoted key ++ [58]) ++ (decimal slot.toNat ++ 44 :: rest) := by
    simp only [printField, Scalar.print, List.append_assoc, List.cons_append, List.nil_append]
  rw [readNumber, hsplit, expect_append, Option.map_some, readOctet_decimal]

/-- Read the records that are printed, and no other text. -/
def compactReader : JsonReader where
  identity text := do
    let binding ← readString 123 (ascii "binding_id") text
    let phase ← readString 44 (ascii "phase") binding.2
    let slot ← readNumber 44 (ascii "slot") phase.2
    let volume ← readString 44 (ascii "volume_uuid") slot.2
    if volume.2 = [125] then some ⟨phase.1, binding.1, volume.1, slot.1⟩ else none
  bundle text := do
    let path ← readString 123 (ascii "path") text
    let phase ← readString 44 (ascii "phase") path.2
    let sha384 ← readString 44 (ascii "sha384") phase.2
    if sha384.2 = [125] then some ⟨phase.1, path.1, sha384.1⟩ else none

theorem compactReader_readsPrinted : compactReader.ReadsPrinted where
  identity record _ _ _ := by
    simp only [compactReader, printObject_cons, printRest, readString_printField,
      readNumber_printField, Option.bind_eq_bind, Option.bind_some, if_true]
  bundle record _ _ _ := by
    simp only [compactReader, printObject_cons, printRest, readString_printField,
      Option.bind_eq_bind, Option.bind_some, if_true]

/-- The journal of an enrollment in which nothing fails, and the same journal without its last
line. -/
theorem journalCommitted_exact_pair : ∃ (s' : Cli.State (Luks.Device Unit)) (file : Cli.File),
    Fallible.Runs (Cli.responds (Cli.addClosure () Luks.serde Cli.pairHandle 1 [1])) Eq
      (Cli.enroll Crypto.transparent (ascii "journal") Cli.pairJournal) Cli.pairStart (.ok ()) s' ∧
    s'.files (ascii "journal") = some file ∧
    journalCommitted compactReader file.content = some true ∧
    journalCommitted compactReader ((journalLines Crypto.transparent (ascii "journal")
      Envelope.pairDescriptor [7]).take 3).flatten = some false := by
  have hd : Identifies Cli.pairJournal.descriptor := ⟨by decide, by decide, by decide⟩
  obtain ⟨-, hsucceeds, hwritten, -⟩ := journalCommitted_exact compactReader
    compactReader_readsPrinted Crypto.transparent (ascii "journal") Cli.pairJournal hd
    (isUtf8_ascii _) (by decide +kernel)
  obtain ⟨s', hruns, -, hsuccess⟩ := Cli.pairJournal_enrolls
  obtain ⟨file, hfile, hcontent, -⟩ := hsucceeds _ _ Cli.pairStart s' rfl hruns hsuccess
  obtain ⟨hcomplete, hpart, -⟩ := hwritten (by decide +kernel)
  exact ⟨s', file, hruns, hfile, hcontent ▸ hcomplete, hpart 3 (by decide) (by decide)⟩

end Leelo.Collector
