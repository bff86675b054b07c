import Leelo.Core.Text
import Mathlib.Data.List.Forall2

/-!
# Compact JSON

Numbers, strings, arrays and objects in compact form. A value stays on one line, and the
sizes of its parts bound its own size.
-/

namespace Leelo.Core.Json

/-- The bytes of a text. -/
def utf8 (text : String) : Bytes := text.toByteArray.data.toList

/-- A text in quotes, escaped. -/
def string (text : String) : Bytes := quoted (utf8 text)

/-- A truth value. -/
def boolean (value : Bool) : Bytes := utf8 (if value then "true" else "false")

/-- An integer in decimal digits. -/
def integer (value : Int) : Bytes :=
  if value < 0 then 45 :: decimal value.natAbs else decimal value.natAbs

/-- A value that may be missing, printed as `null` then. -/
def optional {α : Type} (print : α → Bytes) : Option α → Bytes
  | none => utf8 "null"
  | some value => print value

/-- A list of values that are already printed. -/
def array (items : List Bytes) : Bytes := 91 :: List.intercalate [44] items ++ [93]

/-- A name and its value. -/
def member (name : String) (value : Bytes) : Bytes := string name ++ 58 :: value

/-- Names and values in the order given. -/
def object (members : List (String × Bytes)) : Bytes :=
  123 :: List.intercalate [44] (members.map fun entry => member entry.1 entry.2) ++ [125]

/-- The text of some bytes. -/
def ofUtf8 (bytes : Bytes) : Option String := String.fromUTF8? (ByteArray.mk bytes.toArray)

theorem ofUtf8_utf8 (text : String) : ofUtf8 (utf8 text) = some text := by
  have hbytes : ByteArray.mk (utf8 text).toArray = text.toByteArray := rfl
  rw [ofUtf8, hbytes, String.fromUTF8?, dif_pos text.isValidUTF8]
  rfl

theorem utf8_injective : Function.Injective utf8 := by
  intro text text' h
  have hsame := ofUtf8_utf8 text
  rw [h, ofUtf8_utf8] at hsame
  exact (Option.some.inj hsame).symm

/-- The bytes of a text are valid. -/
theorem isUtf8_utf8 (text : String) : isUtf8 (utf8 text) = true := by
  have hbytes : ByteArray.mk (utf8 text).toArray = text.toByteArray := rfl
  rw [isUtf8, hbytes, ByteArray.validateUTF8_eq_true_iff]
  exact text.isValidUTF8

/-- Readable bytes are the bytes of a text. -/
theorem exists_utf8 {bytes : Bytes} (h : isUtf8 bytes = true) : ∃ text, utf8 text = bytes :=
  ⟨String.fromUTF8 _ (ByteArray.validateUTF8_eq_true_iff.mp h), rfl⟩

/-- A printed string is valid. -/
theorem isUtf8_string (text : String) : isUtf8 (string text) = true :=
  isUtf8_quoted (isUtf8_utf8 text)

/-- The value stays on one line and has at most `bound` bytes. -/
structure Fits (bound : Nat) (value : Bytes) : Prop where
  length_le : value.length ≤ bound
  newline_notMem : newline ∉ value

variable {bound : Nat} {parts : List Bytes} {bounds : List Nat}

theorem Fits.mono {bound' : Nat} {value : Bytes} (h : Fits bound value) (hle : bound ≤ bound') :
    Fits bound' value :=
  ⟨h.length_le.trans hle, h.newline_notMem⟩

theorem fits_decimal {digits value : Nat} (hdigits : 0 < digits) (h : value < 10 ^ digits) :
    Fits digits (decimal value) := by
  refine ⟨?_, newline_notMem_decimal value⟩
  rw [decimal, List.length_map]
  exact (Nat.length_toDigits_le_iff (by decide) hdigits).mpr h

/-- A sign takes one more byte. -/
theorem fits_integer {digits : Nat} {value : Int} (hdigits : 0 < digits)
    (h : value.natAbs < 10 ^ digits) : Fits (digits + 1) (integer value) := by
  have hdecimal := fits_decimal hdigits h
  unfold integer
  split_ifs
  · refine ⟨Nat.succ_le_succ hdecimal.length_le, fun hmem => ?_⟩
    rcases List.mem_cons.mp hmem with hsign | hmem
    · cases hsign
    · exact hdecimal.newline_notMem hmem
  · exact hdecimal.mono (Nat.le_succ _)

theorem fits_string {size : Nat} {text : String} (h : text.utf8ByteSize ≤ size) :
    Fits (6 * size + 2) (string text) := by
  have hlength : (utf8 text).length ≤ size := h
  exact ⟨(length_quoted_le _).trans (by omega), newline_notMem_quoted _⟩

theorem fits_boolean (value : Bool) : Fits 5 (boolean value) := by
  cases value with
  | false => exact ⟨by decide, by decide⟩
  | true => exact ⟨by decide, by decide⟩

theorem fits_optional {α : Type} {print : α → Bytes} {value : Option α} (hbound : 4 ≤ bound)
    (h : ∀ inner, value = some inner → Fits bound (print inner)) :
    Fits bound (optional print value) := by
  cases value with
  | none =>
    have hnull : newline ∉ utf8 "null" := by decide
    exact ⟨hbound, hnull⟩
  | some inner => exact h inner rfl

/-- The sizes of the parts add up. -/
private theorem sum_length_le (h : List.Forall₂ Fits bounds parts) :
    (parts.map (·.length + 1)).sum ≤ (bounds.map (· + 1)).sum := by
  induction h with
  | nil => exact Nat.le_refl 0
  | cons hpart _ ih =>
    simp only [List.map_cons, List.sum_cons]
    exact Nat.add_le_add (Nat.succ_le_succ hpart.length_le) ih

private theorem newline_notMem_parts (h : List.Forall₂ Fits bounds parts) :
    ∀ part ∈ parts, newline ∉ part := by
  induction h with
  | nil => exact fun _ hpart => absurd hpart List.not_mem_nil
  | cons hpart _ ih => exact List.forall_mem_cons.mpr ⟨hpart.newline_notMem, ih⟩

private theorem fits_between (opening closing : UInt8) (hopening : opening ≠ newline)
    (hclosing : closing ≠ newline) (h : List.Forall₂ Fits bounds parts) :
    Fits ((bounds.map (· + 1)).sum + 2) (opening :: List.intercalate [44] parts ++ [closing]) := by
  refine ⟨?_, fun hmem => ?_⟩
  · have hlength := (length_intercalate_le 44 parts).trans (sum_length_le h)
    rw [List.length_append, List.length_cons, List.length_singleton]
    omega
  · rcases List.mem_append.mp hmem with hmem | hmem
    · rcases List.mem_cons.mp hmem with heq | hmem
      · exact hopening heq.symm
      · rcases mem_intercalate hmem with hmem | ⟨part, hpart, hmem⟩
        · cases List.mem_singleton.mp hmem
        · exact newline_notMem_parts h part hpart hmem
    · exact hclosing (List.mem_singleton.mp hmem).symm

theorem fits_array {items : List Bytes} (h : ∀ item ∈ items, Fits bound item) :
    Fits (items.length * (bound + 1) + 2) (array items) := by
  have hitems : List.Forall₂ Fits (List.replicate items.length bound) items := by
    rw [← List.map_const', List.forall₂_map_left_iff]
    exact List.forall₂_same.mpr h
  have hfits := fits_between 91 93 (by decide) (by decide) hitems
  rw [List.map_replicate, List.sum_replicate_nat] at hfits
  exact hfits

/-- The size of an object whose members have these bounds. -/
def objectBound (bounds : List (String × Nat)) : Nat :=
  (bounds.map fun entry => 6 * entry.1.utf8ByteSize + entry.2 + 4).sum + 2

/-- A name and its value fit together. -/
theorem fits_member {name : String} {value : Bytes} (h : Fits bound value) :
    Fits (6 * name.utf8ByteSize + bound + 3) (member name value) := by
  have hname : Fits (6 * name.utf8ByteSize + 2) (string name) := fits_string le_rfl
  refine ⟨?_, fun hmem => ?_⟩
  · have := hname.length_le
    have := h.length_le
    rw [member, List.length_append, List.length_cons]
    omega
  · rcases List.mem_append.mp hmem with hmem | hmem
    · exact hname.newline_notMem hmem
    · rcases List.mem_cons.mp hmem with hcolon | hmem
      · cases hcolon
      · exact h.newline_notMem hmem

theorem fits_object {members : List (String × Bytes)} {bounds : List (String × Nat)}
    (h : List.Forall₂ (fun bound member => member.1 = bound.1 ∧ Fits bound.2 member.2)
      bounds members) :
    Fits (objectBound bounds) (object members) := by
  have hmembers : List.Forall₂ Fits
      (bounds.map fun entry => 6 * entry.1.utf8ByteSize + entry.2 + 3)
      (members.map fun entry => member entry.1 entry.2) := by
    rw [List.forall₂_map_left_iff, List.forall₂_map_right_iff]
    refine h.imp fun bound entry hentry => ?_
    rw [hentry.1]
    exact fits_member hentry.2
  have hfits := fits_between 123 125 (by decide) (by decide) hmembers
  rw [List.map_map] at hfits
  exact hfits

end Leelo.Core.Json
