import Leelo.Core.Lists
import Leelo.Luks.Codec
import Leelo.Luks.Enrollment

/-!
# The metadata that the library reports

A library prints the header of a context as JSON and reports the size of the region that
holds it. The plan for a token is a function of the two. What is assumed of the library is
how the printed header grows with a keyslot and with a token.
-/

namespace Leelo.Luks

open Leelo.Core Leelo.Core.Fallible

/-- How a library reports headers. -/
structure Library (codec : Codec) where
  dump : Header → String
  /-- The size of the metadata region. -/
  region : Nat
  /-- The JSON value that a stored token is reported as. -/
  value : String → codec.Value
  /-- The codes of a token write that the metadata has no room for. -/
  full : Int → Prop

variable {codec : Codec}

/-- The token table of a printed header. -/
def tokensOf (codec : Codec) (json : String) : Option (List (String × codec.Value)) :=
  (codec.fromSlice json).bind fun value => (codec.get value "tokens").bind codec.asObject

/-- Only slots in range have tokens. -/
theorem slot_lt_of_encodeToken {slot : UInt8} {envelope : Bytes} {json : String}
    (h : encodeToken codec slot envelope = .ok json) : slot < slotCount := by
  unfold encodeToken at h
  split_ifs at h with hrange
  exact UInt8.not_le.mp fun hle => hrange (.inl hle)

private theorem zero_not_mem_escape_fin :
    ∀ byte : Fin 256, 0 ∉ escape (UInt8.ofNat byte.val) := by
  decide +kernel

private theorem zero_not_mem_string (text : String) : 0 ∉ Json.string text := by
  rw [Json.string, quoted]
  intro h
  rw [List.mem_append, List.mem_cons, List.mem_flatMap] at h
  rcases h with (h | ⟨byte, -, h⟩) | h
  · cases h
  · have hescape := zero_not_mem_escape_fin ⟨byte.toNat, byte.toNat_lt⟩
    rw [UInt8.ofNat_toNat] at hescape
    exact hescape h
  · cases List.mem_singleton.mp h

private theorem zero_mem_utf8 {text : String} (h : Char.ofNat 0 ∈ text.toList) :
    0 ∈ Json.utf8 text := by
  rw [Json.utf8, ← String.utf8Encode_toList, List.utf8Encode, List.data_toByteArray]
  exact List.mem_flatMap.mpr ⟨_, h, by decide⟩

/-- An encoded token is a C string, so the plan never refuses it as one. -/
theorem isCString_of_encodeToken {codec : Codec} (hspec : codec.Specified) {slot : UInt8}
    {envelope : Bytes} {json : String} (h : encodeToken codec slot envelope = .ok json) :
    isCString json = true := by
  rw [isCString, Bool.not_eq_true', Bool.eq_false_iff]
  intro hzero
  have hmem := zero_mem_utf8 (List.contains_iff_mem.mp hzero)
  rw [(decodeToken_encodeToken hspec h).1] at hmem
  simp only [spelling, Token.json, Json.object, Json.array, Json.member, List.map_cons,
    List.map_nil, List.intercalate, List.intersperse_cons_cons, List.intersperse_singleton,
    List.flatten_cons, List.flatten_nil, List.mem_append, List.mem_cons, List.not_mem_nil,
    zero_not_mem_string] at hmem
  -- what is left are the brackets and separators
  revert hmem
  decide

namespace Library

/-- The printed header and its terminator fit into their area. -/
def Fits (library : Library codec) (header : Header) : Prop :=
  ∃ available, availableOf library.region = .ok available ∧
    (library.dump header).utf8ByteSize + 1 ≤ available

/-- Tokens are reported under their identifiers with the values that were stored. -/
structure Reports (library : Library codec) : Prop where
  tokens : ∀ header, ∃ tokens, tokensOf codec (library.dump header) = some tokens ∧
    ∀ id < slotCount, tokens.lookup (slotText id) = (header.tokens id).map library.value

/-- A new keyslot takes at most the reserve, and a token is inserted as a compact member: its
text, its quoted identifier, a colon and perhaps a comma. -/
structure Grows (library : Library codec) : Prop extends library.Reports where
  slot : ∀ header slot passphrase, slot < slotCount → header.slots slot = none →
    (library.dump (header.putSlot slot passphrase)).utf8ByteSize ≤
      (library.dump header).utf8ByteSize + newSlotJsonReserve
  token : ∀ header slot envelope id json, id < slotCount → header.tokens id = none →
    encodeToken codec slot envelope = .ok json →
      (library.dump (header.putToken id json)).utf8ByteSize ≤
        (library.dump header).utf8ByteSize + json.utf8ByteSize + (slotText id).utf8ByteSize + 4

/-- The metadata of a header. -/
def metadataOf (library : Library codec) (header : Header) : Except Error (Metadata codec) := do
  let available ← availableOf library.region
  let (parsed, jsonBytes) ← parseJson codec (.text (library.dump header))
  return ⟨parsed, jsonBytes, available⟩

/-- The plan for a token in a header. -/
def plan (library : Library codec) (header : Header) (slot : UInt8) (envelope : Bytes)
    (addingSlot : Bool) : Except Error (UInt8 × String) := do
  let json ← encodeToken codec slot envelope
  let metadata ← library.metadataOf header
  let tokens ← metadata.tokens
  planToken metadata tokens json addingSlot

/-- The identifier of a new token is the first free one. -/
def freeId (header : Header) : Option UInt8 := tokenIds.find? fun id => (header.tokens id).isNone

theorem freeId_eq_some {header : Header} {id : UInt8} (h : freeId header = some id) :
    id < slotCount ∧ header.tokens id = none := by
  unfold freeId at h
  have hfree := List.find?_some h
  exact ⟨mem_tokenIds.mp (List.mem_of_find?_eq_some h), Option.isNone_iff_eq_none.mp hfree⟩

variable {library : Library codec} {header : Header} {slot id : UInt8} {envelope : Bytes}
  {json : String} {addingSlot : Bool}

/-- The bytes that the plan asks for. -/
def required (library : Library codec) (header : Header) (id : UInt8) (json : String)
    (addingSlot : Bool) : Nat :=
  (library.dump header).utf8ByteSize + json.utf8ByteSize + (slotText id).utf8ByteSize + 5 +
    if addingSlot then newSlotJsonReserve else 0

/-- The token table of reported metadata. -/
theorem Reports.metadataOf (h : library.Reports) (header : Header) {available : Nat}
    (havailable : availableOf library.region = .ok available) :
    ∃ (metadata : Metadata codec) (tokens : List (String × codec.Value)),
      library.metadataOf header = .ok metadata ∧
      metadata.available = available ∧
      metadata.jsonBytes = (library.dump header).utf8ByteSize ∧ metadata.tokens = .ok tokens ∧
      ∀ id < slotCount, tokens.lookup (slotText id) = (header.tokens id).map library.value := by
  obtain ⟨tokens, htokens, hlookup⟩ := h.tokens header
  obtain ⟨value, hvalue, htable⟩ := Option.bind_eq_some_iff.mp htokens
  refine ⟨⟨value, (library.dump header).utf8ByteSize, available⟩, tokens, ?_, rfl, rfl, ?_, hlookup⟩
  · simp only [Library.metadataOf, havailable, parseJson, hvalue]
    rfl
  · simp only [Metadata.tokens, htable]

/-- The first identifier that the table lacks is the first free one. -/
theorem find_free {tokens : List (String × codec.Value)}
    (h : ∀ id < slotCount, tokens.lookup (slotText id) = (header.tokens id).map library.value) :
    (tokenIds.find? fun id => (tokens.lookup (slotText id)).isNone) = freeId header := by
  refine List.find?_congr fun id hid => ?_
  rw [h id (mem_tokenIds.mp hid), Option.isNone_map]

/-- The plan of an encoded token. -/
theorem plan_eq (h : library.Reports) {available : Nat}
    (havailable : availableOf library.region = .ok available)
    (hjson : encodeToken codec slot envelope = .ok json) :
    library.plan header slot envelope addingSlot =
      match freeId header with
      | none => .error .noTokenSpace
      | some id =>
        if library.required header id json addingSlot > available then
          .error (.metadataSpace (library.required header id json addingSlot) available)
        else if isCString json then .ok (id, json)
        else .error .invalidToken := by
  obtain ⟨metadata, tokens, hmetadata, rfl, hbytes, htokens, hlookup⟩ :=
    h.metadataOf header havailable
  simp only [plan, hjson, hmetadata, htokens, ok_bind, planToken, find_free hlookup,
    requiredBytes, required, hbytes]
  cases freeId header with
  | none => rfl
  | some id => rfl

/-- A plan succeeds where there is an identifier and space. -/
theorem plan_eq_ok (h : library.Reports) :
    library.plan header slot envelope addingSlot = .ok (id, json) ↔
      encodeToken codec slot envelope = .ok json ∧ freeId header = some id ∧
        isCString json = true ∧ ∃ available, availableOf library.region = .ok available ∧
          library.required header id json addingSlot ≤ available := by
  constructor
  · intro hplan
    obtain ⟨json', hjson, hrest⟩ := bind_eq_ok.mp hplan
    obtain ⟨metadata, hmetadata, -⟩ := bind_eq_ok.mp hrest
    obtain ⟨available, havailable, -⟩ := bind_eq_ok.mp hmetadata
    rw [plan_eq h havailable hjson] at hplan
    cases hfree : freeId header with
    | none =>
      rw [hfree] at hplan
      cases hplan
    | some id' =>
      rw [hfree] at hplan
      dsimp only at hplan
      split_ifs at hplan with hroom hstring
      cases hplan
      exact ⟨hjson, rfl, hstring, available, havailable, Nat.le_of_not_lt hroom⟩
  · rintro ⟨hjson, hfree, hstring, available, havailable, hroom⟩
    rw [plan_eq h havailable hjson, hfree]
    dsimp only
    rw [if_neg (Nat.not_lt.mpr hroom), if_pos hstring]

/-- The planned token fits once its slot is there, and the plan for it alone stands. -/
theorem Grows.plan (h : library.Grows) (hslot : header.slots slot = none) (passphrase : Bytes)
    (hplan : library.plan header slot envelope true = .ok (id, json)) :
    library.plan (header.putSlot slot passphrase) slot envelope false = .ok (id, json) ∧
      library.Fits ((header.putSlot slot passphrase).putToken id json) := by
  obtain ⟨hjson, hfree, hstring, available, havailable, hroom⟩ := (plan_eq_ok h.toReports).mp hplan
  obtain ⟨hid, hnone⟩ := freeId_eq_some hfree
  have hlow : slot < slotCount := slot_lt_of_encodeToken hjson
  have hreserve := h.slot header slot passphrase hlow hslot
  have hinsert := h.token (header.putSlot slot passphrase) slot envelope id json hid hnone hjson
  simp only [required, if_pos] at hroom
  refine ⟨(plan_eq_ok h.toReports).mpr
    ⟨hjson, hfree, hstring, available, havailable, ?_⟩, available, havailable, ?_⟩
  · simp only [required, Bool.false_eq_true, if_false]
    omega
  · omega

end Library

section Compact

open Json (Value Members)

theorem nodup_tokenIds : tokenIds.Nodup := by decide

/-- One member for each entry of a table, under the identifier of the entry. -/
def tableMembers (table : UInt8 → Option Value) : List (String × Value) :=
  tokenIds.filterMap fun id => (table id).map fun value => (slotText id, value)

/-- The object of a table. -/
def tableObject (table : UInt8 → Option Value) : Value := .object (.ofList (tableMembers table))

/-- A stored token is kept as the value that it spells, and any other text as a string. -/
def storedValue (text : String) : Value :=
  match decodeToken serde text with
  | .ok value => (spelling serde value).value
  | .error _ => .string text

/-- The object of a header. -/
def headerValue (header : Header) : Value :=
  .object (.ofList [
    ("keyslots", tableObject fun id => (header.slots id).map fun _ => .object .nil),
    ("tokens", tableObject fun id => (header.tokens id).map storedValue)])

/-- A library that prints its metadata without spaces. -/
def compact (region : Nat) : Library serde where
  dump header := (Json.ofUtf8 (headerValue header).print).getD ""
  region := region
  value := storedValue
  full code := code = -28

theorem utf8_dump (region : Nat) (header : Header) :
    Json.utf8 ((compact region).dump header) = (headerValue header).print := by
  obtain ⟨text, hdump, htext⟩ := ofUtf8_print (headerValue header)
  have hsame : (compact region).dump header = text := by
    change (Json.ofUtf8 (headerValue header).print).getD "" = text
    rw [hdump, Option.getD_some]
  rw [hsame, htext]

private theorem slotText_inj {a b : UInt8} (ha : a < 32) (hb : b < 32)
    (h : slotText a = slotText b) : a = b := by
  have hread := parseU8_slotText ha
  rw [h, parseU8_slotText hb] at hread
  exact (Option.some.inj hread).symm

theorem lookup_tableMembers (table : UInt8 → Option Value) {id : UInt8} (hid : id < slotCount) :
    (tableMembers table).lookup (slotText id) = table id :=
  lookup_filterMap (fun _ hother h => slotText_inj hid (mem_tokenIds.mp hother) h)
    (.inl (mem_tokenIds.mpr hid))

/-- What an entry adds to its table. -/
def entrySize (table : UInt8 → Option Value) (id : UInt8) : Nat :=
  ((table id).map fun value => Json.memberSize (slotText id, value)).getD 0

theorem sum_tableMembers (table : UInt8 → Option Value) :
    ((tableMembers table).map Json.memberSize).sum = (tokenIds.map (entrySize table)).sum := by
  unfold tableMembers
  induction tokenIds with
  | nil => rfl
  | cons id rest ih =>
    rw [List.map_cons, List.sum_cons, ← ih]
    cases hentry : table id with
    | none =>
      rw [List.filterMap_cons_none (by rw [hentry]; rfl), entrySize, hentry]
      exact (Nat.zero_add _).symm
    | some value =>
      rw [List.filterMap_cons_some (by rw [hentry]; rfl), List.map_cons, List.sum_cons, entrySize,
        hentry]
      rfl

/-- A table without members has no entries. -/
theorem tableMembers_eq_nil {table : UInt8 → Option Value} :
    tableMembers table = [] ↔ ∀ id ∈ tokenIds, table id = none := by
  simp only [tableMembers, List.filterMap_eq_nil_iff, Option.map_eq_none_iff]

/-- A new entry adds its member, and a comma if it is not the first. -/
theorem length_print_update {table : UInt8 → Option Value} {id : UInt8} (hid : id < slotCount)
    (hnone : table id = none) (value : Value) :
    (tableObject (Function.update table id (some value))).print.length +
        (if tableMembers table = [] then 1 else 0) =
      (tableObject table).print.length + Json.memberSize (slotText id, value) := by
  have hentry : entrySize (Function.update table id (some value)) =
      Function.update (entrySize table) id (Json.memberSize (slotText id, value)) := by
    funext other
    by_cases hother : other = id
    · subst hother
      rw [Function.update_self, entrySize, Function.update_self]
      rfl
    · rw [Function.update_of_ne hother, entrySize, Function.update_of_ne hother, entrySize]
  have hzero : entrySize table id = 0 := by
    rw [entrySize, hnone]
    rfl
  have hsum := sum_map_update nodup_tokenIds (mem_tokenIds.mpr hid) hzero
    (Json.memberSize (slotText id, value))
  rw [← hentry, ← sum_tableMembers, ← sum_tableMembers] at hsum
  have hnew : tableMembers (Function.update table id (some value)) ≠ [] := by
    intro hempty
    have hself := tableMembers_eq_nil.mp hempty id (mem_tokenIds.mpr hid)
    rw [Function.update_self] at hself
    cases hself
  rw [tableObject, tableObject, Value.length_print_object, Value.length_print_object,
    if_neg hnew, hsum]
  by_cases hold : tableMembers table = []
  · rw [if_pos hold, if_pos hold, hold, List.map_nil, List.sum_nil]
    omega
  · rw [if_neg hold, if_neg hold]
    omega

/-- The size of a printed header. -/
theorem size_dump (region : Nat) (header : Header) :
    ((compact region).dump header).utf8ByteSize =
      (tableObject fun id => (header.slots id).map fun _ => .object .nil).print.length +
        (tableObject fun id => (header.tokens id).map storedValue).print.length + 23 := by
  have hkeyslots : (Json.string "keyslots").length = 10 := by decide +kernel
  have htokens : (Json.string "tokens").length = 8 := by decide +kernel
  change (Json.utf8 ((compact region).dump header)).length = _
  rw [utf8_dump, headerValue, Value.length_print_object, if_neg (List.cons_ne_nil _ _)]
  simp only [List.map_cons, List.map_nil, List.sum_cons, List.sum_nil, Json.memberSize, hkeyslots,
    htokens]
  omega

/-- A stored text is reported as long as the encoder would write it. -/
theorem length_storedValue {slot : UInt8} {envelope : Bytes} {text json : String}
    (hdecode : decodeToken serde text = .ok ⟨slot, envelope⟩)
    (hencode : encodeToken serde slot envelope = .ok json) :
    (storedValue text).print.length = json.utf8ByteSize := by
  have hjson := (decodeToken_encodeToken serde_specified hencode).1
  have hsize : json.utf8ByteSize = (Json.utf8 json).length := rfl
  rw [storedValue, hdecode, hsize, hjson, ← Token.print_value]

private theorem map_update {α β : Type} (f : α → β) (table : UInt8 → Option α) (id : UInt8)
    (value : α) : (fun other => (Function.update table id (some value) other).map f) =
      Function.update (fun other => (table other).map f) id (some (f value)) := by
  funext other
  by_cases hother : other = id
  · subst hother
    rw [Function.update_self, Function.update_self, Option.map_some]
  · rw [Function.update_of_ne hother, Function.update_of_ne hother]

/-- A token in a free place adds its member to the printed header, and a comma if it is not the
first. -/
theorem size_putToken (region : Nat) {header : Header} {slot id : UInt8} {envelope : Bytes}
    {text json : String} (hid : id < slotCount) (hnone : header.tokens id = none)
    (hdecode : decodeToken serde text = .ok ⟨slot, envelope⟩)
    (hencode : encodeToken serde slot envelope = .ok json) :
    ((compact region).dump (header.putToken id text)).utf8ByteSize =
      ((compact region).dump header).utf8ByteSize + json.utf8ByteSize +
        (slotText id).utf8ByteSize +
          if tokenIds.all fun other => (header.tokens other).isNone then 3 else 4 := by
  have hquoted := (length_string_slotText hid).1
  have hgrow := @length_print_update (fun id => (header.tokens id).map storedValue)
    id hid (by rw [hnone]; rfl) (storedValue text)
  simp only [tableMembers_eq_nil, Option.map_eq_none_iff] at hgrow
  simp only [List.all_eq_true, Option.isNone_iff_eq_none]
  rw [Json.memberSize, hquoted, length_storedValue hdecode hencode] at hgrow
  rw [size_dump, size_dump, Header.putToken, map_update]
  dsimp only
  split_ifs at hgrow ⊢ <;> omega

/-- The compact library's metadata grows by its entries. -/
theorem compact_grows (region : Nat) : (compact region).Grows where
  tokens header := by
    refine ⟨tableMembers fun id => (header.tokens id).map storedValue, ?_, ?_⟩
    · have hparse : serde.fromSlice ((compact region).dump header) = some (headerValue header) := by
        change Json.parse (Json.utf8 _) = _
        rw [utf8_dump, Json.parse_print]
      refine Option.bind_eq_some_iff.mpr ⟨_, hparse, ?_⟩
      exact congrArg some (Members.toList_ofList _)
    · intro id hid
      exact lookup_tableMembers _ hid
  slot header slot passphrase hslot hnone := by
    obtain ⟨hquoted, hsize⟩ := length_string_slotText hslot
    have hgrow := @length_print_update (fun id => (header.slots id).map fun _ => .object .nil)
      slot hslot (by rw [hnone]; rfl) (.object .nil)
    have hempty : (Value.object .nil).print.length = 2 := rfl
    have hreserve : newSlotJsonReserve = 4096 := rfl
    rw [size_dump, size_dump, Header.putSlot, map_update]
    dsimp only
    rw [Json.memberSize, hquoted, hempty] at hgrow
    omega
  token header slot envelope id json hid hnone hencode := by
    have hdecode := (decodeToken_encodeToken serde_specified hencode).2
    rw [size_putToken region hid hnone hdecode hencode]
    split_ifs <;> omega

end Compact

end Leelo.Luks
