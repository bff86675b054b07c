import Leelo.Core.Cbor

/-!
# Text forms of data

UTF-8, lower-case hex, decimal numbers and compact JSON objects whose fields are numbers
or strings, as byte strings. Printed text never holds a line break, so a line can hold
one object, and a text that was cut off is some of its lines and a part of the next.
-/

namespace Leelo.Core

/-- The line feed that ends a record. -/
def newline : UInt8 := 10

/-- The bytes are the UTF-8 form of some text. -/
def isUtf8 (bytes : Bytes) : Bool := (ByteArray.mk bytes.toArray).validateUTF8

variable {bytes : Bytes} {byte : UInt8} {text : Bytes} {lines : List Bytes}

theorem isUtf8_iff :
    isUtf8 bytes = true ↔ ∃ chars : List Char, bytes = chars.flatMap String.utf8EncodeChar := by
  unfold isUtf8
  rw [ByteArray.validateUTF8_eq_true_iff]
  constructor
  · rintro ⟨chars, hchars⟩
    refine ⟨chars, ?_⟩
    have hdata := congrArg (fun array : ByteArray => array.data.toList) hchars
    simpa only [List.utf8Encode, List.toList_data_toByteArray] using hdata
  · rintro ⟨chars, rfl⟩
    refine ⟨chars, ?_⟩
    apply ByteArray.ext
    rw [← Array.toList_inj]
    simp only [List.utf8Encode, List.toList_data_toByteArray]

theorem isUtf8_append {bytes' : Bytes} (h : isUtf8 bytes = true) (h' : isUtf8 bytes' = true) :
    isUtf8 (bytes ++ bytes') = true := by
  obtain ⟨chars, rfl⟩ := isUtf8_iff.mp h
  obtain ⟨chars', rfl⟩ := isUtf8_iff.mp h'
  exact isUtf8_iff.mpr ⟨chars ++ chars', List.flatMap_append.symm⟩

/-- One byte below 128 is a character of its own. -/
private theorem utf8EncodeChar_ascii (h : byte < 128) :
    String.utf8EncodeChar (Char.ofUInt8 byte) = [byte] := by
  have hval : (Char.ofUInt8 byte).val.toNat = byte.toNat := UInt8.toNat_toUInt32 byte
  have hlt : byte.toNat < 128 := h
  unfold String.utf8EncodeChar
  simp only [hval]
  rw [if_pos (by omega), UInt8.ofNat_toNat]

/-- Bytes below 128 are valid. -/
theorem isUtf8_of_ascii (h : ∀ byte ∈ bytes, byte < 128) :
    isUtf8 bytes = true := by
  refine isUtf8_iff.mpr ⟨bytes.map Char.ofUInt8, ?_⟩
  rw [List.flatMap_map]
  induction bytes with
  | nil => rfl
  | cons byte rest ih =>
    rw [List.flatMap_cons, utf8EncodeChar_ascii (h byte List.mem_cons_self), List.singleton_append,
      ← ih fun other hother => h other (List.mem_cons_of_mem _ hother)]

/-- A longer encoding has no byte below 128. -/
private theorem utf8EncodeChar_cases (c : Char) :
    (∃ byte, String.utf8EncodeChar c = [byte]) ∨
      ∀ byte ∈ String.utf8EncodeChar c, 128 ≤ byte := by
  have hhigh : ∀ n, 128 ≤ n → n < 256 → (128 : UInt8) ≤ UInt8.ofNat n := by
    intro n hlow hlt
    rw [UInt8.le_iff_toNat_le, UInt8.toNat_ofNat', Nat.mod_eq_of_lt hlt]
    exact hlow
  unfold String.utf8EncodeChar
  by_cases h1 : c.val.toNat ≤ 127
  · simp only [if_pos h1]
    exact .inl ⟨_, rfl⟩
  right
  intro byte hbyte
  simp only [if_neg h1] at hbyte
  by_cases h2 : c.val.toNat ≤ 2047
  · simp only [if_pos h2, List.mem_cons, List.not_mem_nil, or_false] at hbyte
    rcases hbyte with rfl | rfl <;> exact hhigh _ (by omega) (by omega)
  by_cases h3 : c.val.toNat ≤ 65535
  · simp only [if_neg h2, if_pos h3, List.mem_cons, List.not_mem_nil, or_false] at hbyte
    rcases hbyte with rfl | rfl | rfl <;> exact hhigh _ (by omega) (by omega)
  · simp only [if_neg h2, if_neg h3, List.mem_cons, List.not_mem_nil, or_false] at hbyte
    rcases hbyte with rfl | rfl | rfl | rfl <;> exact hhigh _ (by omega) (by omega)

/-- Text that is cut before a byte below 128 is still text. -/
theorem isUtf8_of_append {rest : Bytes} (h : isUtf8 (bytes ++ rest) = true)
    (hrest : ∀ byte, rest.head? = some byte → byte < 128) : isUtf8 bytes = true := by
  obtain ⟨chars, hchars⟩ := isUtf8_iff.mp h
  clear h
  induction chars generalizing bytes with
  | nil =>
    rw [(List.append_eq_nil_iff.mp hchars).1]
    rfl
  | cons c chars ih =>
    rw [List.flatMap_cons] at hchars
    rcases List.append_eq_append_iff.mp hchars with ⟨tail, hc, hr⟩ | ⟨tail, rfl, hr⟩
    · -- the cut is inside this character, so it is at one of its ends
      cases tail with
      | nil =>
        rw [List.append_nil] at hc
        exact isUtf8_iff.mpr ⟨[c], by rw [← hc, List.flatMap_singleton]⟩
      | cons byte tail =>
        rcases utf8EncodeChar_cases c with ⟨only, honly⟩ | hhigh
        · have hlength := congrArg List.length (hc.symm.trans honly)
          simp only [List.length_append, List.length_cons, List.length_nil] at hlength
          have hnil : bytes = [] := List.length_eq_zero_iff.mp (by omega)
          rw [hnil]
          rfl
        · have hlow := hrest byte (by rw [hr]; rfl)
          have hmem : byte ∈ String.utf8EncodeChar c := by
            rw [hc]
            exact List.mem_append_right _ List.mem_cons_self
          exact absurd hlow (UInt8.not_lt.mpr (hhigh byte hmem))
    · exact isUtf8_append (isUtf8_iff.mpr ⟨[c], by rw [List.flatMap_singleton]⟩) (ih hr.symm)

/-- A lower-case hexadecimal digit. -/
def hexDigit (value : UInt8) : UInt8 := if value < 10 then 48 + value else 87 + value

/-- Two digits for each byte. -/
def hexEncode (bytes : Bytes) : Bytes :=
  bytes.flatMap fun byte => [hexDigit (byte / 16), hexDigit (byte % 16)]

/-- An encoding is twice as long. -/
theorem length_hexEncode (bytes : Bytes) : (hexEncode bytes).length = 2 * bytes.length := by
  induction bytes with
  | nil => rfl
  | cons byte rest ih =>
    change ([hexDigit (byte / 16), hexDigit (byte % 16)] ++ hexEncode rest).length = _
    rw [List.length_append, ih, List.length_cons, List.length_cons, List.length_cons]
    simp only [List.length_nil]
    omega

/-- A natural number in decimal digits. -/
def decimal (value : Nat) : Bytes :=
  (Nat.toDigits 10 value).map fun digit => UInt8.ofNat digit.toNat

/-- The short form of a byte of a string, or the byte itself. -/
def escape (byte : UInt8) : Bytes :=
  if byte = 34 then [92, 34]
  else if byte = 92 then [92, 92]
  else if byte = 8 then [92, 98]
  else if byte = 9 then [92, 116]
  else if byte = 10 then [92, 110]
  else if byte = 12 then [92, 102]
  else if byte = 13 then [92, 114]
  else if byte < 32 then [92, 117, 48, 48, hexDigit (byte / 16), hexDigit (byte % 16)]
  else [byte]

/-- A text in quotes, its bytes escaped. -/
def quoted (text : Bytes) : Bytes := 34 :: text.flatMap escape ++ [34]

/-- A value of a field. -/
inductive Scalar where
  | number (value : Nat)
  | string (text : Bytes)
  deriving DecidableEq, Repr

/-- The text of a number or a string. -/
def Scalar.print : Scalar → Bytes
  | .number value => decimal value
  | .string text => quoted text

/-- A name, a colon and its value. -/
def printField (field : Bytes × Scalar) : Bytes := quoted field.1 ++ 58 :: field.2.print

/-- One object on one line, without its line break. -/
def printObject (fields : List (Bytes × Scalar)) : Bytes :=
  123 :: List.intercalate [44] (fields.map printField) ++ [125]

private theorem newline_notMem_escape_fin :
    ∀ byte : Fin 256, newline ∉ escape (UInt8.ofNat byte.val) := by decide +kernel

/-- A quoted text stays on its line. -/
theorem newline_notMem_quoted (text : Bytes) : newline ∉ quoted text := by
  intro h
  rcases List.mem_append.mp h with h | h
  · rcases List.mem_cons.mp h with h | h
    · cases h
    · obtain ⟨byte, _, hbyte⟩ := List.mem_flatMap.mp h
      have := newline_notMem_escape_fin ⟨byte.toNat, byte.toNat_lt⟩
      rw [UInt8.ofNat_toNat] at this
      exact this hbyte
  · cases List.mem_singleton.mp h

/-- A number stays on its line. -/
theorem newline_notMem_decimal (value : Nat) : newline ∉ decimal value := by
  intro h
  obtain ⟨digit, hdigit, hbyte⟩ := List.mem_map.mp h
  have hrange := Nat.isDigit_of_mem_toDigits (by omega) (by omega) hdigit
  simp only [Char.isDigit, Bool.and_eq_true, decide_eq_true_eq] at hrange
  have hlow : 48 ≤ digit.toNat := hrange.1
  have hhigh : digit.toNat ≤ 57 := hrange.2
  have hnat := congrArg UInt8.toNat hbyte
  rw [UInt8.toNat_ofNat'] at hnat
  change digit.toNat % 256 = 10 at hnat
  omega

private theorem newline_notMem_printField (field : Bytes × Scalar) :
    newline ∉ printField field := by
  intro h
  rcases List.mem_append.mp h with h | h
  · exact newline_notMem_quoted _ h
  · rcases List.mem_cons.mp h with h | h
    · cases h
    · obtain ⟨key, value⟩ := field
      cases value with
      | number value => exact newline_notMem_decimal value h
      | string text => exact newline_notMem_quoted text h

/-- An element of a joined list is of the separator or of a part. -/
theorem mem_intercalate {α : Type} {a : α} {separator : List α} {parts : List (List α)}
    (h : a ∈ List.intercalate separator parts) : a ∈ separator ∨ ∃ part ∈ parts, a ∈ part := by
  induction parts with
  | nil => cases h
  | cons part parts ih =>
    cases parts with
    | nil =>
      have hpart : a ∈ part := by simpa [List.intercalate] using h
      exact .inr ⟨part, List.mem_cons_self, hpart⟩
    | cons next rest =>
      have hsplit : a ∈ part ++ (separator ++ List.intercalate separator (next :: rest)) := by
        simpa [List.intercalate] using h
      rcases List.mem_append.mp hsplit with hpart | hsplit
      · exact .inr ⟨part, List.mem_cons_self, hpart⟩
      · rcases List.mem_append.mp hsplit with hsep | hrest
        · exact .inl hsep
        · rcases ih hrest with hsep | ⟨q, hq, ha⟩
          · exact .inl hsep
          · exact .inr ⟨q, List.mem_cons_of_mem _ hq, ha⟩

/-- An object stays on its line. -/
theorem newline_notMem_printObject (fields : List (Bytes × Scalar)) :
    newline ∉ printObject fields := by
  intro h
  rcases List.mem_append.mp h with h | h
  · rcases List.mem_cons.mp h with h | h
    · cases h
    · rcases mem_intercalate h with h | ⟨part, hpart, h⟩
      · cases List.mem_singleton.mp h
      · obtain ⟨field, _, rfl⟩ := List.mem_map.mp hpart
        exact newline_notMem_printField field h
  · cases List.mem_singleton.mp h

/-- The value of a hexadecimal digit. -/
def unhex (digit : UInt8) : UInt8 := if digit < 58 then digit - 48 else digit - 87

/-- The byte of a short form. -/
def unescape (short : UInt8) : UInt8 :=
  if short = 98 then 8
  else if short = 116 then 9
  else if short = 110 then 10
  else if short = 102 then 12
  else if short = 114 then 13
  else short

/-- Read a string after its opening quote; the rest starts after its closing quote. -/
def unquote : Bytes → Option (Bytes × Bytes)
  | [] => none
  | 34 :: rest => some ([], rest)
  | 92 :: 117 :: 48 :: 48 :: high :: low :: rest =>
    (unquote rest).map fun read => ((unhex high * 16 + unhex low) :: read.1, read.2)
  | 92 :: short :: rest => (unquote rest).map fun read => (unescape short :: read.1, read.2)
  | byte :: rest => (unquote rest).map fun read => (byte :: read.1, read.2)

private theorem unhex_fin : ∀ byte : Fin 32,
    unhex (hexDigit (UInt8.ofNat byte.val / 16)) * 16 +
      unhex (hexDigit (UInt8.ofNat byte.val % 16)) = UInt8.ofNat byte.val := by
  decide

/-- An escaped byte is read back. -/
theorem unquote_escape (byte : UInt8) (rest : Bytes) :
    unquote (escape byte ++ rest) =
      (unquote rest).map fun read => (byte :: read.1, read.2) := by
  unfold escape
  by_cases h34 : byte = 34
  · subst h34
    rfl
  by_cases h92 : byte = 92
  · subst h92
    rfl
  by_cases h8 : byte = 8
  · subst h8
    rfl
  by_cases h9 : byte = 9
  · subst h9
    rfl
  by_cases h10 : byte = 10
  · subst h10
    rfl
  by_cases h12 : byte = 12
  · subst h12
    rfl
  by_cases h13 : byte = 13
  · subst h13
    rfl
  simp only [if_neg h34, if_neg h92, if_neg h8, if_neg h9, if_neg h10, if_neg h12, if_neg h13]
  by_cases hlow : byte < 32
  · have hvalue := unhex_fin ⟨byte.toNat, hlow⟩
    rw [UInt8.ofNat_toNat] at hvalue
    rw [if_pos hlow]
    change (unquote rest).map (fun read => ((unhex (hexDigit (byte / 16)) * 16 +
      unhex (hexDigit (byte % 16))) :: read.1, read.2)) = _
    rw [hvalue]
  · rw [if_neg hlow, List.singleton_append]
    rw [unquote]
    · exact h34
    · intro high low rest' h
      exact absurd h h92
    · intro short rest' h
      exact absurd h h92

theorem unquote_quoted (text rest : Bytes) :
    unquote (text.flatMap escape ++ 34 :: rest) = some (text, rest) := by
  induction text with
  | nil => rfl
  | cons byte text ih =>
    rw [List.flatMap_cons, List.append_assoc, unquote_escape, ih]
    rfl

/-- What follows a field of an object. -/
def printRest : List (Bytes × Scalar) → Bytes
  | [] => [125]
  | field :: fields => 44 :: (printField field ++ printRest fields)

/-- An object opens with its first field. -/
theorem printObject_cons (field : Bytes × Scalar) (fields : List (Bytes × Scalar)) :
    printObject (field :: fields) = 123 :: (printField field ++ printRest fields) := by
  have htail : ∀ first : Bytes × Scalar,
      List.intercalate [44] ((first :: fields).map printField) ++ [125] =
        printField first ++ printRest fields := by
    induction fields with
    | nil =>
      intro first
      simp [List.intercalate, printRest]
    | cons next rest ih =>
      intro first
      have hnext := ih next
      simp only [List.map_cons, List.intercalate, List.intersperse_cons_cons, List.flatten_cons,
        List.append_assoc, List.singleton_append, printRest] at hnext ⊢
      rw [List.cons_append, hnext]
  exact congrArg (123 :: ·) (htail field)

/-- Step over a fixed text. -/
def expect (literal text : Bytes) : Option Bytes :=
  if literal <+: text then some (text.drop literal.length) else none

theorem expect_append (literal rest : Bytes) : expect literal (literal ++ rest) = some rest := by
  rw [expect, if_pos (List.prefix_append _ _), List.drop_left]

theorem escape_of_high (h : 128 ≤ byte) : escape byte = [byte] := by
  have hne {low : UInt8} (hlow : low < 128) : byte ≠ low := by
    rintro rfl
    exact absurd hlow (UInt8.not_lt.mpr h)
  unfold escape
  rw [if_neg (hne (by decide)), if_neg (hne (by decide)), if_neg (hne (by decide)),
    if_neg (hne (by decide)), if_neg (hne (by decide)), if_neg (hne (by decide)),
    if_neg (hne (by decide)), if_neg (UInt8.not_lt.mpr (UInt8.le_trans (by decide) h))]

private theorem escape_ascii_fin :
    ∀ byte : Fin 128, ∀ short ∈ escape (UInt8.ofNat byte.val), short < 128 := by decide +kernel

private theorem flatMap_escape_of_high (h : ∀ byte ∈ bytes, 128 ≤ byte) :
    bytes.flatMap escape = bytes := by
  induction bytes with
  | nil => rfl
  | cons byte bytes ih =>
    rw [List.flatMap_cons, escape_of_high (h byte List.mem_cons_self),
      ih fun other hother => h other (List.mem_cons_of_mem _ hother)]
    rfl

/-- Escaping keeps a text valid. -/
private theorem isUtf8_escaped (chars : List Char) :
    isUtf8 ((chars.flatMap String.utf8EncodeChar).flatMap escape) = true := by
  induction chars with
  | nil => rfl
  | cons c chars ih =>
    rw [List.flatMap_cons, List.flatMap_append]
    refine isUtf8_append ?_ ih
    have hself : isUtf8 (String.utf8EncodeChar c) = true :=
      isUtf8_iff.mpr ⟨[c], by rw [List.flatMap_singleton]⟩
    rcases utf8EncodeChar_cases c with ⟨byte, hbyte⟩ | hhigh
    · rw [hbyte] at hself ⊢
      rw [List.flatMap_singleton]
      by_cases hlow : byte < 128
      · have hascii := escape_ascii_fin ⟨byte.toNat, hlow⟩
        rw [UInt8.ofNat_toNat] at hascii
        exact isUtf8_of_ascii hascii
      · rwa [escape_of_high (UInt8.not_lt.mp hlow)]
    · rwa [flatMap_escape_of_high hhigh]

theorem isUtf8_cons (hbyte : byte < 128) (h : isUtf8 text = true) :
    isUtf8 (byte :: text) = true := by
  have hfirst : isUtf8 [byte] = true := isUtf8_of_ascii (List.forall_mem_singleton.mpr hbyte)
  exact isUtf8_append hfirst h

theorem isUtf8_nil : isUtf8 [] = true := isUtf8_of_ascii (List.forall_mem_nil _)

/-- Quoting keeps text readable. -/
theorem isUtf8_quoted (h : isUtf8 text = true) : isUtf8 (quoted text) = true := by
  have hquote : isUtf8 [34] = true := isUtf8_cons (by decide) isUtf8_nil
  obtain ⟨chars, rfl⟩ := isUtf8_iff.mp h
  exact isUtf8_append (isUtf8_append hquote (isUtf8_escaped chars)) hquote

/-- Text without special bytes is quoted as it is. -/
theorem length_quoted_plain (h : ∀ byte ∈ text, escape byte = [byte]) :
    (quoted text).length = text.length + 2 := by
  have hplain : text.flatMap escape = text := by
    induction text with
    | nil => rfl
    | cons byte text ih =>
      rw [List.flatMap_cons, h byte List.mem_cons_self,
        ih fun other hother => h other (List.mem_cons_of_mem _ hother)]
      rfl
  rw [quoted, hplain, List.length_append, List.length_cons, List.length_singleton]

private theorem length_escape_fin :
    ∀ byte : Fin 256, (escape (UInt8.ofNat byte.val)).length ≤ 6 := by decide +kernel

theorem length_quoted_le (text : Bytes) : (quoted text).length ≤ 6 * text.length + 2 := by
  have hescape : ∀ byte, (escape byte).length ≤ 6 := by
    intro byte
    have := length_escape_fin ⟨byte.toNat, byte.toNat_lt⟩
    rwa [UInt8.ofNat_toNat] at this
  have hbound := length_flatMap_le hescape text
  simp only [quoted, List.length_append, List.length_cons, List.length_nil]
  omega

theorem length_intercalate_le {α : Type} (separator : α) (parts : List (List α)) :
    (List.intercalate [separator] parts).length ≤ (parts.map (·.length + 1)).sum := by
  induction parts with
  | nil => exact Nat.zero_le _
  | cons part parts ih =>
    cases parts with
    | nil => simp [List.intercalate]
    | cons next rest =>
      have hstep : List.intercalate [separator] (part :: next :: rest) =
          part ++ separator :: List.intercalate [separator] (next :: rest) := by
        simp [List.intercalate]
      rw [hstep, List.length_append, List.length_cons, List.map_cons, List.sum_cons]
      omega

/-- Every line with its line break. -/
def unlines (lines : List Bytes) : Bytes := (lines.map (· ++ [newline])).flatten

theorem unlines_cons (line : Bytes) (lines : List Bytes) :
    unlines (line :: lines) = line ++ [newline] ++ unlines lines := rfl

theorem unlines_eq_intercalate (h : lines ≠ []) :
    unlines lines = List.intercalate [newline] lines ++ [newline] := by
  induction lines with
  | nil => exact absurd rfl h
  | cons line lines ih =>
    rw [unlines_cons]
    cases lines with
    | nil => simp [unlines, List.intercalate]
    | cons next rest =>
      rw [ih (List.cons_ne_nil _ _)]
      simp [List.intercalate]

/-- The lines are found again, and an empty rest. -/
theorem splitOn_unlines (h : ∀ line ∈ lines, newline ∉ line) :
    (unlines lines).splitOn newline = lines ++ [[]] := by
  have hjoin : unlines lines = List.intercalate [newline] (lines ++ [[]]) := by
    induction lines with
    | nil => rfl
    | cons line lines ih =>
      rw [unlines_cons, ih fun other hother => h other (List.mem_cons_of_mem _ hother)]
      cases lines with
      | nil => simp [List.intercalate]
      | cons next rest => simp [List.intercalate]
  rw [hjoin]
  refine List.splitOn_intercalate newline (fun line hline => ?_) (by simp)
  rcases List.mem_append.mp hline with hline | hline
  · exact h line hline
  · cases List.mem_singleton.mp hline
    exact List.not_mem_nil

/-- Short lines make a short text. -/
theorem length_unlines_le {bound : Nat} (h : ∀ line ∈ lines, line.length ≤ bound) :
    (unlines lines).length ≤ (bound + 1) * lines.length := by
  induction lines with
  | nil => exact Nat.zero_le _
  | cons line lines ih =>
    have hline := h line List.mem_cons_self
    have hrest := ih fun other hother => h other (List.mem_cons_of_mem _ hother)
    rw [unlines_cons, List.length_append, List.length_append, List.length_singleton,
      List.length_cons, Nat.mul_succ]
    omega

/-- The lines of a text that ends with a line break. -/
def linesOf (text : Bytes) : List Bytes := text.dropLast.splitOn newline

theorem linesOf_unlines (hne : lines ≠ []) (h : ∀ line ∈ lines, newline ∉ line) :
    linesOf (unlines lines) = lines := by
  unfold linesOf
  rw [unlines_eq_intercalate hne, List.dropLast_concat]
  exact List.splitOn_intercalate newline h hne

private theorem notMem_of_mem_splitOn {line : Bytes} (h : line ∈ text.splitOn newline) :
    newline ∉ line := by
  induction text generalizing line with
  | nil =>
    rw [List.splitOn_nil] at h
    cases List.mem_singleton.mp h
    exact List.not_mem_nil
  | cons byte rest ih =>
    rw [List.splitOn_cons_eq_if_modifyHead] at h
    by_cases hbyte : byte = newline
    · rw [if_pos (by simpa using hbyte)] at h
      rcases List.mem_cons.mp h with rfl | h
      · exact List.not_mem_nil
      · exact ih h
    · rw [if_neg (by simpa using hbyte)] at h
      cases hsplit : rest.splitOn newline with
      | nil =>
        rw [hsplit] at h
        cases h
      | cons first others =>
        rw [hsplit, List.modifyHead_cons] at h
        rcases List.mem_cons.mp h with rfl | h
        · intro hmem
          rcases List.mem_cons.mp hmem with hsame | hmem
          · exact hbyte hsame.symm
          · exact ih (hsplit ▸ List.mem_cons_self) hmem
        · exact ih (hsplit ▸ List.mem_cons_of_mem _ h)

/-- A text that ends with a line break is made of its lines. -/
theorem unlines_linesOf (h : text.getLast? = some newline) :
    unlines (linesOf text) = text ∧ ∀ line ∈ linesOf text, newline ∉ line := by
  refine ⟨?_, fun line => notMem_of_mem_splitOn⟩
  have hne : linesOf text ≠ [] := fun hnil => List.splitOn_ne_nil _ _ hnil
  rw [unlines_eq_intercalate hne, linesOf, List.intercalate_splitOn]
  obtain ⟨before, rfl⟩ := List.getLast?_eq_some_iff.mp h
  rw [List.dropLast_concat]

/-- A prefix of some lines is the first of them and a part of the next one. -/
theorem prefix_unlines (h : text <+: unlines lines) :
    ∃ count part, text = unlines (lines.take count) ++ part ∧ count ≤ lines.length ∧
      (part = [] ∨ ∃ line, lines[count]? = some line ∧ part <+: line) := by
  induction lines generalizing text with
  | nil =>
    refine ⟨0, [], ?_, Nat.le_refl 0, .inl rfl⟩
    exact List.prefix_nil.mp h
  | cons line lines ih =>
    rw [unlines_cons] at h
    rcases List.prefix_or_prefix_of_prefix h (List.prefix_append _ _) with hpart | hwhole
    · rcases List.prefix_concat_iff.mp hpart with rfl | hpart
      · refine ⟨1, [], ?_, Nat.succ_le_succ (Nat.zero_le _), .inl rfl⟩
        rw [List.take_succ_cons, List.take_zero, unlines_cons, List.append_nil]
        exact (List.append_nil _).symm
      · exact ⟨0, text, rfl, Nat.zero_le _, .inr ⟨line, rfl, hpart⟩⟩
    · obtain ⟨rest, rfl⟩ := hwhole
      have hrest : rest <+: unlines lines := (List.prefix_append_right_inj _).mp h
      obtain ⟨count, part, rfl, hcount, hpart⟩ := ih hrest
      refine ⟨count + 1, part, ?_, Nat.succ_le_succ hcount, hpart⟩
      simp only [List.take_succ_cons, unlines_cons, List.append_assoc]

end Leelo.Core
