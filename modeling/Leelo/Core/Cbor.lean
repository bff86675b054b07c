import Mathlib.Data.List.Basic
import Mathlib.Tactic.IntervalCases
import Mathlib.Tactic.NormNum

/-!
# Sequential decoders and the CBOR primitives

A decoder consumes the front of the bytes it is given. `Reads` says that it turns
one encoding into one value whatever follows, and its rules mirror the monad, so a
round trip is proved field by field. `Cbor` collects the primitive encoders and
decoders of a CBOR library, `Cbor.Rfc8949` what a caller may assume of them, and
`rfc8949` is an instance with shortest heads and a decoder that also accepts longer
ones.
-/

namespace Leelo.Core

/-- A sequence of octets. -/
abbrev Bytes := List UInt8

/-- A decoder takes a value off the front of the remaining bytes or fails. -/
abbrev Decoder (ε α : Type) := StateT Bytes (Except ε) α

/-- A check that consumes nothing. -/
def require {ε : Type} (condition : Prop) [Decidable condition] (error : ε) : Decoder ε Unit :=
  if condition then pure () else throw error

/-- A library decoder whose every failure becomes the same error. -/
def orError {ε α : Type} (decode : Bytes → Option (α × Bytes)) (error : ε) : Decoder ε α :=
  fun input =>
    match decode input with
    | some result => .ok result
    | none => .error error

/-- A result that was computed without reading anything. -/
def fromExcept {ε α : Type} (result : Except ε α) : Decoder ε α :=
  fun input => result.map (·, input)

/-- The bytes as an array of fixed size, if they have that size. -/
def tryInto (n : Nat) (value : Bytes) : Option (Vector UInt8 n) :=
  if h : value.length = n then some ⟨value.toArray, by rw [List.size_toArray, h]⟩ else none

theorem tryInto_toList {n : Nat} (value : Vector UInt8 n) :
    tryInto n value.toList = some value := by
  rw [tryInto, dif_pos value.length_toList]
  simp only [Vector.toArray_toList]

theorem tryInto_eq_some {n : Nat} {bytes : Bytes} {value : Vector UInt8 n} :
    tryInto n bytes = some value ↔ bytes = value.toList := by
  constructor
  · intro h
    unfold tryInto at h
    split_ifs at h with hlength
    cases h
    rfl
  · rintro rfl
    exact tryInto_toList value

/-- Read `count` values one after the other. -/
def readList {ε α : Type} (decoder : Decoder ε α) : Nat → Decoder ε (List α)
  | 0 => pure []
  | count + 1 => do
    let value ← decoder
    let values ← readList decoder count
    pure (value :: values)

/-- Read `count` values and thread an accumulator through the readings. -/
def readFold {ε α σ : Type} (decoder : σ → Decoder ε (α × σ)) :
    Nat → σ → Decoder ε (List α × σ)
  | 0, state => pure ([], state)
  | count + 1, state => do
    let (value, state) ← decoder state
    let (values, state) ← readFold decoder count state
    pure (value :: values, state)

/-- The decoder reads `value` off the front `encoding` and leaves what follows. -/
def Reads {ε α : Type} (decoder : Decoder ε α) (encoding : Bytes) (value : α) : Prop :=
  ∀ rest, decoder.run (encoding ++ rest) = .ok (value, rest)

section Rules

variable {ε α β σ : Type} {decoder : Decoder ε α} {encoding encoding' : Bytes}

theorem Reads.pure (value : α) : Reads (pure value : Decoder ε α) [] value :=
  fun _ => rfl

variable {value : α}

/-- Two readings in sequence read the concatenation. -/
theorem Reads.bind {next : α → Decoder ε β} {value' : β} (h : Reads decoder encoding value)
    (h' : Reads (next value) encoding' value') :
    Reads (decoder >>= next) (encoding ++ encoding') value' := by
  intro rest
  rw [StateT.run_bind, List.append_assoc, h]
  exact h' rest

/-- A reading whose continuation reads nothing more. -/
theorem Reads.finish {next : α → Decoder ε β} {value' : β} (h : Reads decoder encoding value)
    (h' : Reads (next value) [] value') :
    Reads (decoder >>= next) encoding value' := by
  have hread := h.bind h'
  rwa [List.append_nil] at hread

/-- A check that passes reads nothing. -/
theorem Reads.check {condition : Prop} [Decidable condition] {error : ε}
    {next : Unit → Decoder ε α} (hcond : condition) (h : Reads (next ()) encoding value) :
    Reads (require condition error >>= next) encoding value := by
  have hcheck : Reads (require condition error) [] () := by
    intro rest
    rw [require, if_pos hcond]
    rfl
  exact hcheck.bind h

/-- A computed success reads nothing. -/
theorem Reads.computed {result : Except ε β} {computed : β} {next : β → Decoder ε α}
    (hresult : result = .ok computed) (h : Reads (next computed) encoding value) :
    Reads (fromExcept result >>= next) encoding value := by
  have hread : Reads (fromExcept result) [] computed := by
    intro rest
    rw [hresult]
    rfl
  exact hread.bind h

theorem Reads.last (h : Reads decoder encoding value) :
    decoder.run encoding = .ok (value, []) := by
  have hread := h []
  rwa [List.append_nil] at hread

theorem reads_orError {decode : Bytes → Option (α × Bytes)} {error : ε}
    (h : ∀ rest, decode (encoding ++ rest) = some (value, rest)) :
    Reads (orError decode error) encoding value := by
  intro rest
  change (match decode (encoding ++ rest) with
    | some result => Except.ok result
    | none => Except.error error) = _
  rw [h]

/-- Reading a list reads the concatenation of its element encodings. -/
theorem reads_readList {encode : α → Bytes} {values : List α}
    (h : ∀ value ∈ values, Reads decoder (encode value) value) :
    Reads (readList decoder values.length) (values.flatMap encode) values := by
  induction values with
  | nil => exact Reads.pure []
  | cons value values ih =>
    rw [List.flatMap_cons]
    apply Reads.bind (h value List.mem_cons_self)
    apply Reads.finish (ih fun v hv => h v (List.mem_cons_of_mem _ hv))
    exact Reads.pure _

/-- A list of items of bounded size has bounded size. -/
theorem length_flatMap_le {α : Type} {encode : α → Bytes} {bound : Nat}
    (h : ∀ value, (encode value).length ≤ bound) (values : List α) :
    (values.flatMap encode).length ≤ bound * values.length := by
  induction values with
  | nil => simp
  | cons value values ih =>
    have hvalue := h value
    rw [List.flatMap_cons, List.length_append, List.length_cons, Nat.mul_succ]
    omega

end Rules

/-- The primitive encoders and decoders of a CBOR library. An array head carries its
count, and decodes to no count when the array is indefinite. -/
structure Cbor where
  putArray : Nat → Bytes
  putU8 : UInt8 → Bytes
  putU32 : UInt32 → Bytes
  putU64 : UInt64 → Bytes
  putBytes : Bytes → Bytes
  putStr : String → Bytes
  getArray : Bytes → Option (Option Nat × Bytes)
  getU8 : Bytes → Option (UInt8 × Bytes)
  getU32 : Bytes → Option (UInt32 × Bytes)
  getU64 : Bytes → Option (UInt64 × Bytes)
  getBytes : Bytes → Option (Bytes × Bytes)
  getStr : Bytes → Option (String × Bytes)

/-- What RFC 8949 promises of well-formed items: every item decodes to itself and stops
at its end, a head takes at most nine bytes and an integer of `w` bytes at most `w + 1`. -/
structure Cbor.Rfc8949 (cbor : Cbor) : Prop where
  array : ∀ count < 2 ^ 64, ∀ rest,
    cbor.getArray (cbor.putArray count ++ rest) = some (some count, rest)
  u8 : ∀ value rest, cbor.getU8 (cbor.putU8 value ++ rest) = some (value, rest)
  u32 : ∀ value rest, cbor.getU32 (cbor.putU32 value ++ rest) = some (value, rest)
  u64 : ∀ value rest, cbor.getU64 (cbor.putU64 value ++ rest) = some (value, rest)
  bytes : ∀ value : Bytes, value.length < 2 ^ 64 → ∀ rest,
    cbor.getBytes (cbor.putBytes value ++ rest) = some (value, rest)
  str : ∀ value : String, value.utf8ByteSize < 2 ^ 64 → ∀ rest,
    cbor.getStr (cbor.putStr value ++ rest) = some (value, rest)
  length_array : ∀ count, (cbor.putArray count).length ≤ 9
  length_u8 : ∀ value, (cbor.putU8 value).length ≤ 2
  length_u32 : ∀ value, (cbor.putU32 value).length ≤ 5
  length_u64 : ∀ value, (cbor.putU64 value).length ≤ 9
  length_bytes : ∀ value, (cbor.putBytes value).length ≤ value.length + 9
  length_str : ∀ value, (cbor.putStr value).length ≤ value.utf8ByteSize + 9

/-- The `width` low octets of a number, the most significant first. -/
def bigEndian : Nat → Nat → Bytes
  | 0, _ => []
  | width + 1, value => bigEndian width (value / 256) ++ [UInt8.ofNat value]

/-- The number that a big-endian octet string spells. -/
def ofBigEndian (octets : Bytes) : Nat :=
  octets.foldl (fun value octet => value * 256 + octet.toNat) 0

@[simp] theorem length_bigEndian (width value : Nat) : (bigEndian width value).length = width := by
  induction width generalizing value with
  | zero => rfl
  | succ width ih => rw [bigEndian, List.length_append, ih, List.length_singleton]

variable {value major : Nat}

/-- A number that fits its width is read back. -/
theorem ofBigEndian_bigEndian {width : Nat} (h : value < 256 ^ width) :
    ofBigEndian (bigEndian width value) = value := by
  induction width generalizing value with
  | zero =>
    have hzero : value = 0 := by simpa using h
    rw [hzero]
    rfl
  | succ width ih =>
    have hdiv : value / 256 < 256 ^ width := by
      rw [Nat.div_lt_iff_lt_mul (by norm_num), ← Nat.pow_succ]
      exact h
    have hhigh := ih hdiv
    rw [ofBigEndian] at hhigh
    rw [ofBigEndian, bigEndian, List.foldl_append, hhigh, List.foldl_cons, List.foldl_nil,
      UInt8.toNat_ofNat']
    omega

/-- The exponent of the shortest extended argument: one, two, four or eight octets. -/
def argumentSize (value : Nat) : Nat :=
  if value < 2 ^ 8 then 0 else if value < 2 ^ 16 then 1 else if value < 2 ^ 32 then 2 else 3

/-- The shortest head of an item of major type `major` with argument `value`. -/
def putHead (major value : Nat) : Bytes :=
  if value < 24 then [UInt8.ofNat (major * 32 + value)]
  else UInt8.ofNat (major * 32 + 24 + argumentSize value) ::
    bigEndian (2 ^ argumentSize value) value

/-- Read a head of any length: the major type, its argument unless the item is
indefinite, and the bytes after it. -/
def getHead : Bytes → Option (Nat × Option Nat × Bytes)
  | [] => none
  | initial :: rest =>
    let major := initial.toNat / 32
    let info := initial.toNat % 32
    if info < 24 then some (major, some info, rest)
    else if info < 28 then
      let width := 2 ^ (info - 24)
      if rest.length < width then none
      else some (major, some (ofBigEndian (rest.take width)), rest.drop width)
    else if info = 31 then some (major, none, rest)
    else none

theorem argumentSize_le (value : Nat) : argumentSize value ≤ 3 := by
  unfold argumentSize
  split_ifs <;> omega

theorem lt_argumentSize (h : value < 2 ^ 64) :
    value < 256 ^ 2 ^ argumentSize value := by
  unfold argumentSize
  split_ifs with h8 h16 h32
  all_goals norm_num at *; assumption

theorem length_putHead (major value : Nat) :
    (putHead major value).length ≤ 1 + 2 ^ argumentSize value := by
  unfold putHead
  split_ifs
  · simp
  · rw [List.length_cons, length_bigEndian, Nat.add_comm]

/-- A head of a smaller argument is no longer than its width allows. -/
theorem length_putHead_le (major : Nat) (size : Nat) (h : argumentSize value ≤ size) :
    (putHead major value).length ≤ 1 + 2 ^ size :=
  le_trans (length_putHead major value) (by
    have hpow := Nat.pow_le_pow_right (show 0 < 2 by norm_num) h
    omega)

/-- The initial octet splits into the major type and the additional information. -/
private theorem getHead_cons {initial : UInt8} {info : Nat} (hinfo : info < 32)
    (hinitial : initial.toNat = major * 32 + info) (rest : Bytes) :
    getHead (initial :: rest) =
      if info < 24 then some (major, some info, rest)
      else if info < 28 then
        if rest.length < 2 ^ (info - 24) then none
        else some (major, some (ofBigEndian (rest.take (2 ^ (info - 24)))),
          rest.drop (2 ^ (info - 24)))
      else if info = 31 then some (major, none, rest)
      else none := by
  have hdiv : initial.toNat / 32 = major := by omega
  have hmod : initial.toNat % 32 = info := by omega
  simp only [getHead, hdiv, hmod]

/-- A head that was printed is read back. -/
theorem getHead_putHead (hmajor : major < 8) (hvalue : value < 2 ^ 64) (rest : Bytes) :
    getHead (putHead major value ++ rest) = some (major, some value, rest) := by
  unfold putHead
  split_ifs with hsmall
  · have hinitial : (UInt8.ofNat (major * 32 + value)).toNat = major * 32 + value := by
      rw [UInt8.toNat_ofNat']
      omega
    rw [List.singleton_append, getHead_cons (by omega) hinitial, if_pos hsmall]
  · have hsize := argumentSize_le value
    have hwidth := length_bigEndian (2 ^ argumentSize value) value
    have hinitial : (UInt8.ofNat (major * 32 + 24 + argumentSize value)).toNat =
        major * 32 + (24 + argumentSize value) := by
      rw [UInt8.toNat_ofNat']
      omega
    rw [List.cons_append, getHead_cons (by omega) hinitial, if_neg (by omega), if_pos (by omega),
      Nat.add_sub_cancel_left, if_neg (by rw [List.length_append, hwidth]; omega),
      List.take_left' hwidth, List.drop_left' hwidth,
      ofBigEndian_bigEndian (lt_argumentSize hvalue)]

/-- A definite item of the given major type, below an exclusive bound. -/
def getArgument (major bound : Nat) (input : Bytes) : Option (Nat × Bytes) :=
  match getHead input with
  | some (actual, some value, rest) =>
    if actual = major ∧ value < bound then some (value, rest) else none
  | _ => none

/-- The payload of a definite string of the given major type. -/
def getPayload (major : Nat) (input : Bytes) : Option (Bytes × Bytes) :=
  match getArgument major (2 ^ 64) input with
  | some (count, rest) =>
    if rest.length < count then none else some (rest.take count, rest.drop count)
  | none => none

theorem getArgument_putHead {bound : Nat} (hmajor : major < 8) (hvalue : value < 2 ^ 64)
    (hbound : value < bound) (rest : Bytes) :
    getArgument major bound (putHead major value ++ rest) = some (value, rest) := by
  unfold getArgument
  rw [getHead_putHead hmajor hvalue]
  exact if_pos ⟨rfl, hbound⟩

theorem getPayload_putHead {payload : Bytes} (hmajor : major < 8) (h : payload.length < 2 ^ 64)
    (rest : Bytes) :
    getPayload major (putHead major payload.length ++ payload ++ rest) = some (payload, rest) := by
  unfold getPayload
  rw [List.append_assoc, getArgument_putHead hmajor h h]
  simp only [List.length_append, List.take_left, List.drop_left]
  exact if_neg (by omega)

/-- Shortest heads on the way out, any head on the way in. -/
def rfc8949 : Cbor where
  putArray count := putHead 4 count
  putU8 value := putHead 0 value.toNat
  putU32 value := putHead 0 value.toNat
  putU64 value := putHead 0 value.toNat
  putBytes value := putHead 2 value.length ++ value
  putStr value :=
    let octets := value.toByteArray.data.toList
    putHead 3 octets.length ++ octets
  getArray input :=
    match getHead input with
    | some (4, count, rest) => some (count, rest)
    | _ => none
  getU8 input := (getArgument 0 (2 ^ 8) input).map fun (value, rest) => (UInt8.ofNat value, rest)
  getU32 input := (getArgument 0 (2 ^ 32) input).map fun (value, rest) => (UInt32.ofNat value, rest)
  getU64 input := (getArgument 0 (2 ^ 64) input).map fun (value, rest) => (UInt64.ofNat value, rest)
  getBytes input := getPayload 2 input
  getStr input := do
    let (octets, rest) ← getPayload 3 input
    let value ← String.fromUTF8? ⟨octets.toArray⟩
    some (value, rest)

private theorem argumentSize_le_of_lt {size : Nat} (hsize : size ≤ 3) (h : value < 256 ^ 2 ^ size) :
    argumentSize value ≤ size := by
  unfold argumentSize
  interval_cases size <;> norm_num at h <;> split_ifs <;> omega

/-- The codec meets the specification. -/
theorem rfc8949_spec : rfc8949.Rfc8949 where
  array count hcount rest := by
    have hhead := getHead_putHead (show 4 < 8 by norm_num) hcount rest
    simp only [rfc8949, hhead]
  u8 value rest := by
    have hlt := value.toNat_lt
    simp only [rfc8949]
    rw [getArgument_putHead (by norm_num) (by omega) hlt, Option.map_some, UInt8.ofNat_toNat]
  u32 value rest := by
    have hlt := value.toNat_lt
    simp only [rfc8949]
    rw [getArgument_putHead (by norm_num) (by omega) hlt, Option.map_some, UInt32.ofNat_toNat]
  u64 value rest := by
    have hlt := value.toNat_lt
    simp only [rfc8949]
    rw [getArgument_putHead (by norm_num) hlt hlt, Option.map_some, UInt64.ofNat_toNat]
  bytes value hvalue rest := getPayload_putHead (by norm_num) hvalue rest
  str value hvalue rest := by
    have hlength : value.toByteArray.data.toList.length < 2 ^ 64 := hvalue
    simp only [rfc8949]
    rw [getPayload_putHead (by norm_num) hlength]
    have hvalid := value.isValidUTF8
    simp only [Option.bind_eq_bind, Option.bind_some, Array.toArray_toList, String.fromUTF8?,
      dif_pos hvalid]
    rfl
  length_array count := length_putHead_le 4 3 (argumentSize_le count)
  length_u8 value := length_putHead_le 0 0 (argumentSize_le_of_lt (by norm_num) value.toNat_lt)
  length_u32 value := length_putHead_le 0 2 (argumentSize_le_of_lt (by norm_num) value.toNat_lt)
  length_u64 value := length_putHead_le 0 3 (argumentSize_le _)
  length_bytes value := by
    have hhead := length_putHead_le 2 3 (argumentSize_le value.length)
    simp only [rfc8949, List.length_append]
    omega
  length_str value := by
    have hsize : value.toByteArray.data.toList.length = value.utf8ByteSize := rfl
    have hhead := length_putHead_le 3 3 (argumentSize_le value.utf8ByteSize)
    simp only [rfc8949, List.length_append, hsize]
    omega

end Leelo.Core
