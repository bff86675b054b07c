import Leelo.Core.Json

/-!
# JSON values

Values with a compact printer and a reader. The reader accepts what the printer writes and
gives the value back, whatever follows it.
-/

namespace Leelo.Core.Json

mutual
/-- A value whose numbers are unsigned. -/
inductive Value where
  | null
  | boolean (value : Bool)
  | number (first : Fin 10) (rest : List (Fin 10))
  | string (text : String)
  | array (items : Items)
  | object (members : Members)

/-- The items of an array. -/
inductive Items where
  | nil
  | cons (value : Value) (items : Items)

/-- The members of an object. -/
inductive Members where
  | nil
  | cons (name : String) (value : Value) (members : Members)
end

/-- The members as pairs. -/
def Members.toList : Members → List (String × Value)
  | .nil => []
  | .cons name value members => (name, value) :: members.toList

/-- Members from pairs. -/
def Members.ofList : List (String × Value) → Members
  | [] => .nil
  | (name, value) :: members => .cons name value (.ofList members)

/-- Pairs are kept. -/
@[simp] theorem Members.toList_ofList (members : List (String × Value)) :
    (Members.ofList members).toList = members := by
  induction members with
  | nil => rfl
  | cons entry members ih =>
    rw [Members.ofList, Members.toList, ih]

/-- A decimal digit as a byte. -/
def printDigit (value : Fin 10) : UInt8 := UInt8.ofNat (48 + value.val)

mutual
/-- The compact text of a value. -/
def Value.print : Value → Bytes
  | .null => utf8 "null"
  | .boolean value => Json.boolean value
  | .number first rest => printDigit first :: rest.map printDigit
  | .string text => Json.string text
  | .array .nil => [91, 93]
  | .array (.cons value items) => 91 :: (value.print ++ items.print)
  | .object .nil => [123, 125]
  | .object (.cons name value members) =>
    123 :: (Json.string name ++ 58 :: (value.print ++ members.print))
/-- What follows an item. -/
def Items.print : Items → Bytes
  | .nil => [93]
  | .cons value items => 44 :: (value.print ++ items.print)
/-- What follows a member. -/
def Members.print : Members → Bytes
  | .nil => [125]
  | .cons name value members =>
    44 :: (Json.string name ++ 58 :: (value.print ++ members.print))
end

/-- A member with its colon and the comma or the brace after it. -/
def memberSize (entry : String × Value) : Nat :=
  (Json.string entry.1).length + entry.2.print.length + 2

theorem Members.length_print (members : List (String × Value)) :
    (Members.ofList members).print.length = (members.map memberSize).sum + 1 := by
  induction members with
  | nil => rfl
  | cons entry members ih =>
    simp only [Members.ofList, Members.print, List.length_cons, List.length_append, ih,
      List.map_cons, List.sum_cons, memberSize]
    omega

theorem Value.length_print_object (members : List (String × Value)) :
    (Value.object (.ofList members)).print.length =
      if members = [] then 2 else (members.map memberSize).sum + 1 := by
  cases members with
  | nil => rfl
  | cons entry members =>
    have hrest := Members.length_print members
    simp only [Members.ofList, Value.print, List.length_cons, List.length_append, hrest,
      List.map_cons, List.sum_cons, memberSize, reduceCtorEq, if_false]
    omega

/-- A byte as a decimal digit. -/
def readDigit (byte : UInt8) : Option (Fin 10) :=
  if h : 48 ≤ byte.toNat ∧ byte.toNat < 58 then some ⟨byte.toNat - 48, by omega⟩ else none

/-- The digits that a text starts with. -/
def readDigits : Bytes → List (Fin 10) × Bytes
  | [] => ([], [])
  | byte :: text =>
    match readDigit byte with
    | some value => (value :: (readDigits text).1, (readDigits text).2)
    | none => ([], byte :: text)

/-- A string with its quotes. -/
def readString : Bytes → Option (String × Bytes)
  | 34 :: text => do
    let (bytes, text) ← unquote text
    let string ← ofUtf8 bytes
    return (string, text)
  | _ => none

/-- A value that is neither an array nor an object. -/
def readScalar (text : Bytes) : Option (Value × Bytes) :=
  match readString text with
  | some (string, text) => some (.string string, text)
  | none =>
    match readDigits text with
    | (first :: rest, text) => some (.number first rest, text)
    | ([], text) =>
      match expect (utf8 "null") text, expect (utf8 "true") text, expect (utf8 "false") text with
      | some text, _, _ => some (.null, text)
      | _, some text, _ => some (.boolean true, text)
      | _, _, some text => some (.boolean false, text)
      | _, _, _ => none

mutual
/-- Reads one value; the fuel bounds the depth and the number of parts. -/
def readValue : Nat → Bytes → Option (Value × Bytes)
  | 0, _ => none
  | fuel + 1, text =>
    match text with
    | 91 :: text =>
      if text.head? = some 93 then some (.array .nil, text.tail)
      else do
        let (value, text) ← readValue fuel text
        let (items, text) ← readItems fuel text
        return (.array (.cons value items), text)
    | 123 :: text =>
      if text.head? = some 125 then some (.object .nil, text.tail)
      else do
        let (name, text) ← readString text
        let text ← expect [58] text
        let (value, text) ← readValue fuel text
        let (members, text) ← readMembers fuel text
        return (.object (.cons name value members), text)
    | text => readScalar text
/-- Reads the items after the first. -/
def readItems : Nat → Bytes → Option (Items × Bytes)
  | 0, _ => none
  | fuel + 1, text =>
    match text with
    | 93 :: text => some (.nil, text)
    | 44 :: text => do
      let (value, text) ← readValue fuel text
      let (items, text) ← readItems fuel text
      return (.cons value items, text)
    | _ => none
/-- Reads the members after the first. -/
def readMembers : Nat → Bytes → Option (Members × Bytes)
  | 0, _ => none
  | fuel + 1, text =>
    match text with
    | 125 :: text => some (.nil, text)
    | 44 :: text => do
      let (name, text) ← readString text
      let text ← expect [58] text
      let (value, text) ← readValue fuel text
      let (members, text) ← readMembers fuel text
      return (.cons name value members, text)
    | _ => none
end

/-- A text that is one value. -/
def parse (text : Bytes) : Option Value :=
  match readValue (text.length + 1) text with
  | some (value, []) => some value
  | _ => none

/-- A number ends before this text. -/
def EndsNumber (rest : Bytes) : Prop := ∀ byte, rest.head? = some byte → readDigit byte = none

/-- A digit is read back. -/
private theorem readDigit_printDigit : ∀ value : Fin 10,
    readDigit (printDigit value) = some value := by decide

theorem readDigits_print (digits : List (Fin 10)) {rest : Bytes} (h : EndsNumber rest) :
    readDigits (digits.map printDigit ++ rest) = (digits, rest) := by
  induction digits with
  | nil =>
    cases rest with
    | nil => rfl
    | cons byte rest =>
      rw [List.map_nil, List.nil_append, readDigits, h byte rfl]
  | cons digit digits ih =>
    rw [List.map_cons, List.cons_append, readDigits, readDigit_printDigit, ih]

/-- A string is read back. -/
theorem readString_string (text : String) (rest : Bytes) :
    readString (Json.string text ++ rest) = some (text, rest) := by
  have hprint : Json.string text ++ rest =
      34 :: ((utf8 text).flatMap escape ++ 34 :: rest) := by
    simp [Json.string, quoted]
  rw [hprint, readString, unquote_quoted, Option.bind_eq_bind, Option.bind_some]
  dsimp only
  rw [ofUtf8_utf8]
  rfl

/-- The first byte of a printed value tells its kind. -/
theorem Value.head_print (value : Value) : ∃ first rest, value.print = first :: rest ∧
    first ≠ 93 ∧ first ≠ 125 := by
  cases value with
  | null => exact ⟨110, _, rfl, by decide, by decide⟩
  | boolean value =>
    cases value with
    | true => exact ⟨116, _, rfl, by decide, by decide⟩
    | false => exact ⟨102, _, rfl, by decide, by decide⟩
  | number first rest =>
    refine ⟨printDigit first, rest.map printDigit, rfl, ?_, ?_⟩
    · revert first
      decide
    · revert first
      decide
  | string text => exact ⟨34, _, rfl, by decide, by decide⟩
  | array items =>
    cases items with
    | nil => exact ⟨91, _, rfl, by decide, by decide⟩
    | cons value items => exact ⟨91, _, rfl, by decide, by decide⟩
  | object members =>
    cases members with
    | nil => exact ⟨123, _, rfl, by decide, by decide⟩
    | cons name value members => exact ⟨123, _, rfl, by decide, by decide⟩

theorem Items.head_print (items : Items) (rest : Bytes) : EndsNumber (items.print ++ rest) := by
  intro byte hbyte
  cases items with
  | nil =>
    obtain rfl := Option.some.inj hbyte
    decide
  | cons value items =>
    obtain rfl := Option.some.inj hbyte
    decide

theorem Members.head_print (members : Members) (rest : Bytes) :
    EndsNumber (members.print ++ rest) := by
  intro byte hbyte
  cases members with
  | nil =>
    obtain rfl := Option.some.inj hbyte
    decide
  | cons name value members =>
    obtain rfl := Option.some.inj hbyte
    decide

mutual
/-- The recursion that reading takes. -/
def Value.weight : Value → Nat
  | .array (.cons value items) => 1 + value.weight + items.weight
  | .object (.cons _ value members) => 1 + value.weight + members.weight
  | _ => 1
/-- The fuel that reading the items takes. -/
def Items.weight : Items → Nat
  | .nil => 1
  | .cons value items => 1 + value.weight + items.weight
/-- The fuel that reading the members takes. -/
def Members.weight : Members → Nat
  | .nil => 1
  | .cons _ value members => 1 + value.weight + members.weight
end

theorem readValue_scalar {first : UInt8} (harray : first ≠ 91) (hobject : first ≠ 123)
    (fuel : Nat) (text : Bytes) :
    readValue (fuel + 1) (first :: text) = readScalar (first :: text) := by
  rw [readValue]
  · exact fun _ h => harray (List.cons.inj h).1
  · exact fun _ h => hobject (List.cons.inj h).1

private theorem printDigit_ne : ∀ value : Fin 10,
    printDigit value ≠ 91 ∧ printDigit value ≠ 123 ∧ printDigit value ≠ 34 := by decide

/-- A scalar is read back. -/
theorem readScalar_print {value : Value} {rest : Bytes} (h : EndsNumber rest)
    (hscalar : (∀ items, value ≠ .array items) ∧ ∀ members, value ≠ .object members)
    (fuel : Nat) : readValue (fuel + 1) (value.print ++ rest) = some (value, rest) := by
  cases value with
  | null => rfl
  | boolean value =>
    cases value with
    | true => rfl
    | false => rfl
  | number first digits =>
    have hfirst := printDigit_ne first
    have hstring : readString ((first :: digits).map printDigit ++ rest) = none := by
      rw [List.map_cons, List.cons_append, readString]
      exact fun text htext => hfirst.2.2 (List.cons.inj htext).1
    have hprint : (Value.number first digits).print = (first :: digits).map printDigit := by
      rw [Value.print, List.map_cons]
    have hread := readValue_scalar hfirst.1 hfirst.2.1 fuel (digits.map printDigit ++ rest)
    rw [hprint]
    refine hread.trans ?_
    change readScalar ((first :: digits).map printDigit ++ rest) = _
    rw [readScalar, hstring, readDigits_print _ h]
  | string text =>
    have hprint : (Value.string text).print = Json.string text := by rw [Value.print]
    have hread : readValue (fuel + 1) (Json.string text ++ rest) =
        readScalar (Json.string text ++ rest) :=
      readValue_scalar (by decide) (by decide) fuel _
    rw [hprint, hread, readScalar, readString_string]
  | array items => exact absurd rfl (hscalar.1 items)
  | object members => exact absurd rfl (hscalar.2 members)

private theorem head_append_ne {value : Value} {text : Bytes} {byte : UInt8}
    (hbyte : byte = 93 ∨ byte = 125) : (value.print ++ text).head? ≠ some byte := by
  obtain ⟨first, rest, hprint, harray, hobject⟩ := value.head_print
  rw [hprint, List.cons_append, List.head?_cons]
  intro h
  obtain rfl := Option.some.inj h
  rcases hbyte with rfl | rfl
  · exact harray rfl
  · exact hobject rfl

theorem Value.weight_pos (value : Value) : 0 < value.weight := by
  unfold Value.weight
  split <;> omega

theorem Items.weight_pos (items : Items) : 0 < items.weight := by
  unfold Items.weight
  split <;> omega

theorem Members.weight_pos (members : Members) : 0 < members.weight := by
  unfold Members.weight
  split <;> omega

mutual
/-- A value is read back, with the rest of the text untouched. -/
theorem readValue_print (value : Value) {fuel : Nat} (hfuel : value.weight ≤ fuel) {rest : Bytes}
    (h : EndsNumber rest) : readValue fuel (value.print ++ rest) = some (value, rest) := by
  obtain ⟨fuel, rfl⟩ := Nat.exists_eq_succ_of_ne_zero (value.weight_pos.trans_le hfuel).ne'
  cases value with
  | null | boolean | number | string => exact readScalar_print h ⟨by simp, by simp⟩ fuel
  | array items =>
    cases items with
    | nil => rfl
    | cons value items =>
      rw [Value.weight] at hfuel
      have hvalue := readValue_print value (by omega : value.weight ≤ fuel)
        (items.head_print rest)
      have hitems := readItems_print items (by omega : items.weight ≤ fuel) rest
      rw [Value.print, List.cons_append, List.append_assoc, readValue,
        if_neg (head_append_ne (.inl rfl)), hvalue]
      simp only [Option.bind_eq_bind, Option.bind_some, hitems]
      rfl
  | object members =>
    cases members with
    | nil => rfl
    | cons name value members =>
      rw [Value.weight] at hfuel
      have hvalue := readValue_print value (by omega : value.weight ≤ fuel)
        (members.head_print rest)
      have hmembers := readMembers_print members (by omega : members.weight ≤ fuel) rest
      have hquote : (Json.string name ++ 58 :: (value.print ++ (members.print ++ rest))).head? ≠
          some 125 := fun hhead => absurd (Option.some.inj hhead) (by decide)
      have hcolon : expect [58] (58 :: (value.print ++ (members.print ++ rest))) =
          some (value.print ++ (members.print ++ rest)) := expect_append [58] _
      rw [Value.print, List.cons_append, List.append_assoc, List.cons_append, List.append_assoc,
        readValue, if_neg hquote, readString_string]
      simp only [Option.bind_eq_bind, Option.bind_some, hcolon, hvalue, hmembers]
      rfl
/-- The items are read back. -/
theorem readItems_print (items : Items) {fuel : Nat} (hfuel : items.weight ≤ fuel)
    (rest : Bytes) : readItems fuel (items.print ++ rest) = some (items, rest) := by
  obtain ⟨fuel, rfl⟩ := Nat.exists_eq_succ_of_ne_zero (items.weight_pos.trans_le hfuel).ne'
  cases items with
  | nil => rfl
  | cons value items =>
    rw [Items.weight] at hfuel
    have hvalue := readValue_print value (by omega : value.weight ≤ fuel) (items.head_print rest)
    have hitems := readItems_print items (by omega : items.weight ≤ fuel) rest
    rw [Items.print, List.cons_append, List.append_assoc, readItems, hvalue]
    simp only [Option.bind_eq_bind, Option.bind_some, hitems]
    rfl
/-- The members are read back. -/
theorem readMembers_print (members : Members) {fuel : Nat} (hfuel : members.weight ≤ fuel)
    (rest : Bytes) : readMembers fuel (members.print ++ rest) = some (members, rest) := by
  obtain ⟨fuel, rfl⟩ := Nat.exists_eq_succ_of_ne_zero (members.weight_pos.trans_le hfuel).ne'
  cases members with
  | nil => rfl
  | cons name value members =>
    rw [Members.weight] at hfuel
    have hvalue := readValue_print value (by omega : value.weight ≤ fuel)
      (members.head_print rest)
    have hmembers := readMembers_print members (by omega : members.weight ≤ fuel) rest
    have hcolon : expect [58] (58 :: (value.print ++ (members.print ++ rest))) =
        some (value.print ++ (members.print ++ rest)) := expect_append [58] _
    rw [Members.print, List.cons_append, List.append_assoc, List.cons_append, List.append_assoc,
      readMembers, readString_string]
    simp only [Option.bind_eq_bind, Option.bind_some, hcolon, hvalue, hmembers]
    rfl
end

mutual
/-- The length of the text is fuel enough. -/
theorem Value.weight_le_length (value : Value) : value.weight ≤ value.print.length := by
  cases value with
  | null => exact Nat.succ_le_succ (Nat.zero_le _)
  | boolean value =>
    cases value with
    | true => exact Nat.succ_le_succ (Nat.zero_le _)
    | false => exact Nat.succ_le_succ (Nat.zero_le _)
  | number first rest => exact Nat.succ_le_succ (Nat.zero_le _)
  | string text => exact Nat.succ_le_succ (Nat.zero_le _)
  | array items =>
    cases items with
    | nil => exact Nat.succ_le_succ (Nat.zero_le _)
    | cons value items =>
      have hvalue := value.weight_le_length
      have hitems := items.weight_le_length
      rw [Value.weight, Value.print, List.length_cons, List.length_append]
      omega
  | object members =>
    cases members with
    | nil => exact Nat.succ_le_succ (Nat.zero_le _)
    | cons name value members =>
      have hvalue := value.weight_le_length
      have hmembers := members.weight_le_length
      rw [Value.weight, Value.print, List.length_cons, List.length_append, List.length_cons,
        List.length_append]
      omega
theorem Items.weight_le_length (items : Items) : items.weight ≤ items.print.length := by
  cases items with
  | nil => exact Nat.le_refl 1
  | cons value items =>
    have hvalue := value.weight_le_length
    have hitems := items.weight_le_length
    rw [Items.weight, Items.print, List.length_cons, List.length_append]
    omega
theorem Members.weight_le_length (members : Members) :
    members.weight ≤ members.print.length := by
  cases members with
  | nil => exact Nat.le_refl 1
  | cons name value members =>
    have hvalue := value.weight_le_length
    have hmembers := members.weight_le_length
    rw [Members.weight, Members.print, List.length_cons, List.length_append, List.length_cons,
      List.length_append]
    omega
end

/-- A printed value is read back. -/
theorem parse_print (value : Value) : parse value.print = some value := by
  have hfuel : value.weight ≤ value.print.length + 1 := Nat.le_succ_of_le value.weight_le_length
  have hread := @readValue_print value _ hfuel [] fun byte hbyte => by cases hbyte
  rw [List.append_nil] at hread
  rw [parse, hread]

private theorem printDigit_ascii : ∀ value : Fin 10, printDigit value < 128 := by decide

mutual
/-- A printed value is valid text. -/
theorem Value.isUtf8_print (value : Value) : isUtf8 value.print = true := by
  cases value with
  | null => exact isUtf8_utf8 _
  | boolean value => exact isUtf8_utf8 _
  | number first rest =>
    refine isUtf8_of_ascii fun byte hbyte => ?_
    obtain ⟨digit, -, rfl⟩ : ∃ digit ∈ first :: rest, printDigit digit = byte :=
      List.mem_map.mp hbyte
    exact printDigit_ascii digit
  | string text => exact isUtf8_string text
  | array items =>
    cases items with
    | nil => exact isUtf8_cons (by decide) (isUtf8_cons (by decide) isUtf8_nil)
    | cons value items =>
      exact isUtf8_cons (by decide) (isUtf8_append value.isUtf8_print items.isUtf8_print)
  | object members =>
    cases members with
    | nil => exact isUtf8_cons (by decide) (isUtf8_cons (by decide) isUtf8_nil)
    | cons name value members =>
      exact isUtf8_cons (by decide) (isUtf8_append (isUtf8_string name) (isUtf8_cons (by decide)
        (isUtf8_append value.isUtf8_print members.isUtf8_print)))
theorem Items.isUtf8_print (items : Items) : isUtf8 items.print = true := by
  cases items with
  | nil => exact isUtf8_cons (by decide) isUtf8_nil
  | cons value items =>
    exact isUtf8_cons (by decide) (isUtf8_append value.isUtf8_print items.isUtf8_print)
theorem Members.isUtf8_print (members : Members) : isUtf8 members.print = true := by
  cases members with
  | nil => exact isUtf8_cons (by decide) isUtf8_nil
  | cons name value members =>
    exact isUtf8_cons (by decide) (isUtf8_append (isUtf8_string name) (isUtf8_cons (by decide)
      (isUtf8_append value.isUtf8_print members.isUtf8_print)))
end

end Leelo.Core.Json
