import Leelo.Core.Base64
import Leelo.Core.JsonValue
import Leelo.Luks.Token

/-!
# The token codec

Libraries write compact JSON and unpadded base64 and read back what they wrote. Under this
the limits of the encoder fit into those of the decoder, and the decoder's comparison with
its own spelling leaves one text for each slot and each envelope.
-/

namespace Leelo.Luks

open Leelo.Core

/-- The compact JSON of a token. -/
def Token.json (token : Token) : Bytes :=
  Json.object [("type", Json.string token.kind),
    ("keyslots", Json.array (token.keyslots.map Json.string)),
    ("envelope", Json.string token.envelope)]

/-- The JSON and base64 libraries write as specified and read back what they write. -/
structure Codec.Specified (codec : Codec) : Prop where
  writes : ∀ token, ∃ json, codec.tokenToString token = some json ∧ Json.utf8 json = token.json
  reads : ∀ token json, Json.utf8 json = token.json → codec.tokenFromStr json = some token
  encodes : ∀ bytes, Json.utf8 (codec.base64 bytes) = Base64.encode bytes
  decodes : ∀ bytes, codec.fromBase64 (codec.base64 bytes) = some bytes

private theorem parseU8_slotText_fin :
    ∀ slot : Fin 32, parseU8 (slotText (UInt8.ofNat slot.val)) = some (UInt8.ofNat slot.val) := by
  decide +kernel

theorem parseU8_slotText {slot : UInt8} (h : slot < 32) : parseU8 (slotText slot) = some slot := by
  have hslot := parseU8_slotText_fin ⟨slot.toNat, h⟩
  rwa [UInt8.ofNat_toNat] at hslot

private theorem length_slotText_fin : ∀ slot : Fin 32,
    (Json.string (slotText (UInt8.ofNat slot))).length =
      (slotText (UInt8.ofNat slot)).utf8ByteSize + 2 ∧
        (slotText (UInt8.ofNat slot)).utf8ByteSize ≤ 2 := by
  decide +kernel

/-- The text of a slot has one or two digits, which are quoted as they are. -/
theorem length_string_slotText {id : UInt8} (hid : id < 32) :
    (Json.string (slotText id)).length = (slotText id).utf8ByteSize + 2 ∧
      (slotText id).utf8ByteSize ≤ 2 := by
  have h := length_slotText_fin ⟨id.toNat, hid⟩
  rwa [UInt8.ofNat_toNat] at h

private theorem escape_digit :
    ∀ value < 64, escape (Base64.digit value) = [Base64.digit value] := by
  decide

theorem length_string_base64 {codec : Codec} (h : codec.Specified) (envelope : Bytes) :
    (Json.string (codec.base64 envelope)).length = (4 * envelope.length + 2) / 3 + 2 := by
  have hplain : ∀ byte ∈ Json.utf8 (codec.base64 envelope), escape byte = [byte] := by
    rw [h.encodes]
    intro byte hbyte
    obtain ⟨value, hvalue, rfl⟩ := Base64.mem_encode hbyte
    exact escape_digit value hvalue
  rw [Json.string, length_quoted_plain hplain, h.encodes, Base64.length_encode]

/-- A token is its envelope, its slot and a few names. -/
theorem length_json {codec : Codec} (h : codec.Specified) {slot : UInt8} (hslot : slot < 32)
    (envelope : Bytes) :
    (Token.json ⟨"leelo", [slotText slot], codec.base64 envelope⟩).length =
      (4 * envelope.length + 2) / 3 + (slotText slot).utf8ByteSize + 46 := by
  have hkind : (Json.member "type" (Json.string "leelo")).length = 14 := by decide
  have hkeyslots : (Json.string "keyslots").length = 10 := by decide
  have hname : (Json.string "envelope").length = 10 := by decide
  have hquoted := (length_string_slotText hslot).1
  have henvelope := length_string_base64 h envelope
  simp only [Token.json, Json.object, List.map_cons, List.map_nil, List.intercalate,
    List.intersperse_cons_cons, List.intersperse_singleton, List.flatten_cons, List.flatten_nil,
    List.length_append, List.length_cons, List.length_nil, hkind]
  simp only [Json.member, Json.array, List.intercalate, List.intersperse_singleton,
    List.flatten_cons, List.flatten_nil, List.length_append, List.length_cons, List.length_nil,
    hkeyslots, hname, hquoted, henvelope]
  omega

section Tokens

variable {codec : Codec}

/-- The token that stands for a slot and an envelope. -/
def spelling (codec : Codec) (value : TokenEnvelope) : Token :=
  ⟨"leelo", [slotText value.slot], codec.base64 value.bytes⟩

/-- The decoder accepts short texts of the one spelling of a value in range. -/
theorem decodeToken_eq_ok {json : String} {value : TokenEnvelope} :
    decodeToken codec json = .ok value ↔
      json.utf8ByteSize ≤ 90 * 1024 ∧ codec.tokenFromStr json = some (spelling codec value) ∧
      parseU8 (slotText value.slot) = some value.slot ∧ value.slot < 32 ∧
      codec.fromBase64 (codec.base64 value.bytes) = some value.bytes ∧
      value.bytes ≠ [] ∧ value.bytes.length ≤ 64 * 1024 := by
  unfold decodeToken
  constructor
  · intro h
    split_ifs at h with hsize
    cases htoken : codec.tokenFromStr json with
    | none =>
      rw [htoken] at h
      cases h
    | some token =>
      obtain ⟨kind, keyslots, envelope⟩ := token
      rw [htoken] at h
      dsimp only at h
      split at h
      · rename_i text hkind
        cases hslot : parseU8 text with
        | none =>
          rw [hslot] at h
          cases h
        | some slot =>
          rw [hslot] at h
          dsimp only at h
          split_ifs at h with hrange
          rw [not_or, not_not] at hrange
          obtain ⟨hlow, rfl⟩ := hrange
          cases hbytes : codec.fromBase64 envelope with
          | none =>
            rw [hbytes] at h
            cases h
          | some bytes =>
            rw [hbytes] at h
            dsimp only at h
            split_ifs at h with hlimits
            rw [not_or, not_or, not_not] at hlimits
            obtain ⟨hne, hlength, rfl⟩ := hlimits
            obtain rfl := Except.ok.inj h
            obtain rfl : kind = "leelo" := beq_iff_eq.mp hkind
            exact ⟨Nat.le_of_not_lt hsize, rfl, hslot, UInt8.not_le.mp hlow, hbytes, hne,
              Nat.le_of_not_lt hlength⟩
      · cases h
  · rintro ⟨hsize, htoken, hslot, hlow, hbytes, hne, hlength⟩
    have hrange : ¬(value.slot ≥ 32 ∨ slotText value.slot ≠ slotText value.slot) := by
      rintro (h | h)
      · exact absurd hlow (UInt8.not_lt.mpr h)
      · exact h rfl
    have hlimits : ¬(value.bytes = [] ∨ value.bytes.length > 64 * 1024 ∨
        codec.base64 value.bytes ≠ codec.base64 value.bytes) := by
      rintro (h | h | h)
      · exact hne h
      · exact absurd hlength (Nat.not_le.mpr h)
      · exact h rfl
    rw [if_neg (Nat.not_lt.mpr hsize), htoken]
    simp only [spelling, beq_self_eq_true, hslot, if_neg hrange, hbytes]
    exact if_neg hlimits

/-- The decoder has one error. -/
theorem eq_invalidToken_of_decodeToken {json : String} {error : Error}
    (h : decodeToken codec json = .error error) : error = .invalidToken := by
  unfold decodeToken at h
  split at h
  · exact (Except.error.inj h).symm
  · split at h
    · exact (Except.error.inj h).symm
    · split at h
      · split at h
        · exact (Except.error.inj h).symm
        · split at h
          · exact (Except.error.inj h).symm
          · split at h
            · exact (Except.error.inj h).symm
            · split at h
              · exact (Except.error.inj h).symm
              · cases h
      · exact (Except.error.inj h).symm

/-- The encoder writes the spelling of a value in range. -/
theorem encodeToken_ok (h : codec.Specified) {value : TokenEnvelope} (hslot : value.slot < 32)
    (hne : value.bytes ≠ []) (hlength : value.bytes.length ≤ 64 * 1024) :
    ∃ json, encodeToken codec value.slot value.bytes = .ok json ∧
      Json.utf8 json = (spelling codec value).json ∧ json.utf8ByteSize ≤ 90 * 1024 := by
  obtain ⟨json, hwrite, hjson⟩ := h.writes (spelling codec value)
  have hrange : ¬(value.slot ≥ 32 ∨ value.bytes = [] ∨ value.bytes.length > 64 * 1024) := by
    rintro (h | h | h)
    · exact absurd hslot (UInt8.not_lt.mpr h)
    · exact hne h
    · exact absurd hlength (Nat.not_le.mpr h)
  refine ⟨json, ?_, hjson, ?_⟩
  · rw [spelling] at hwrite
    rw [encodeToken, if_neg hrange, hwrite]
  · have hsize : json.utf8ByteSize = (Json.utf8 json).length := rfl
    have hdigits := (length_string_slotText hslot).2
    rw [hsize, hjson, spelling, length_json h hslot]
    omega

theorem decodeToken_spelling (h : codec.Specified) {value : TokenEnvelope}
    (hslot : value.slot < 32) (hne : value.bytes ≠ []) (hlength : value.bytes.length ≤ 64 * 1024)
    {json : String} (hjson : Json.utf8 json = (spelling codec value).json)
    (hsize : json.utf8ByteSize ≤ 90 * 1024) : decodeToken codec json = .ok value :=
  decodeToken_eq_ok.mpr ⟨hsize, h.reads _ _ hjson, parseU8_slotText hslot, hslot,
    h.decodes _, hne, hlength⟩

/-- The decoder reads what the encoder wrote. -/
theorem decodeToken_encodeToken (h : codec.Specified) {slot : UInt8} {envelope : Bytes}
    {json : String} (hencode : encodeToken codec slot envelope = .ok json) :
    Json.utf8 json = (spelling codec ⟨slot, envelope⟩).json ∧
      decodeToken codec json = .ok ⟨slot, envelope⟩ := by
  have hrange : slot < 32 ∧ envelope ≠ [] ∧ envelope.length ≤ 64 * 1024 := by
    unfold encodeToken at hencode
    split_ifs at hencode with hrange
    simpa only [not_or, UInt8.not_le, Nat.not_lt, GT.gt, GE.ge] using hrange
  obtain ⟨hslot, hne, hlength⟩ := hrange
  obtain ⟨json', hencode', hjson, hsize⟩ :=
    @encodeToken_ok codec h ⟨slot, envelope⟩ hslot hne hlength
  obtain rfl : json' = json := Except.ok.inj (hencode'.symm.trans hencode)
  exact ⟨hjson, decodeToken_spelling h hslot hne hlength hjson hsize⟩

end Tokens

section Serde

open Json (Value Items Members)

/-- An array of texts. -/
def textItems : List String → Items
  | [] => .nil
  | text :: texts => .cons (.string text) (textItems texts)

/-- The texts of an array of texts. -/
def itemTexts : Items → Option (List String)
  | .nil => some []
  | .cons (.string text) items => (itemTexts items).map (text :: ·)
  | .cons _ _ => none

/-- Texts are kept. -/
theorem itemTexts_textItems (texts : List String) : itemTexts (textItems texts) = some texts := by
  induction texts with
  | nil => rfl
  | cons text texts ih => rw [textItems, itemTexts, ih, Option.map_some]

/-- The object of a token. -/
def Token.value (token : Token) : Value :=
  .object (.ofList [("type", .string token.kind), ("keyslots", .array (textItems token.keyslots)),
    ("envelope", .string token.envelope)])

/-- Each field once, in any order, and nothing else. -/
def tokenOf : Value → Option Token
  | .object members =>
    match members.toList.length, members.toList.lookup "type", members.toList.lookup "keyslots",
        members.toList.lookup "envelope" with
    | 3, some (.string kind), some (.array keyslots), some (.string envelope) =>
      (itemTexts keyslots).map fun texts => ⟨kind, texts, envelope⟩
    | _, _, _, _ => none
  | _ => none

/-- The value libraries over one kind of JSON value. -/
def serde : Codec where
  Value := Value
  fromSlice text := Json.parse (Json.utf8 text)
  get
    | .object members, name => members.toList.lookup name
    | _, _ => none
  asObject
    | .object members => some members.toList
    | _ => none
  valueToString value := Json.ofUtf8 value.print
  tokenToString token := Json.ofUtf8 token.value.print
  tokenFromStr text := (Json.parse (Json.utf8 text)).bind tokenOf
  base64 bytes := (Json.ofUtf8 (Base64.encode bytes)).getD ""
  fromBase64 text := Base64.decode (Json.utf8 text)

/-- An array of texts as it is printed. -/
theorem print_textItems (texts : List String) :
    (Value.array (textItems texts)).print = Json.array (texts.map Json.string) := by
  have htail : ∀ texts : List String, ∀ first : Bytes,
      first ++ (textItems texts).print =
        List.intercalate [44] (first :: texts.map Json.string) ++ [93] := by
    intro texts
    induction texts with
    | nil =>
      intro first
      simp [textItems, Items.print, List.intercalate]
    | cons text texts ih =>
      intro first
      have hnext := ih (Json.string text)
      rw [textItems, Items.print, Value.print, hnext]
      simp [List.intercalate]
  cases texts with
  | nil => rfl
  | cons text texts =>
    rw [textItems, Value.print, Value.print, htail]
    rfl

theorem Token.print_value (token : Token) : token.value.print = token.json := by
  have hkeyslots := print_textItems token.keyslots
  simp only [Token.value, Members.ofList, Value.print, Members.print, hkeyslots, Token.json,
    Json.object, Json.member, List.map_cons, List.map_nil, List.intercalate,
    List.intersperse_cons_cons, List.intersperse_singleton, List.flatten_cons, List.flatten_nil,
    List.append_nil, List.append_assoc, List.cons_append, List.nil_append]

theorem ofUtf8_print (value : Value) :
    ∃ text, Json.ofUtf8 value.print = some text ∧ Json.utf8 text = value.print := by
  obtain ⟨text, htext⟩ := Json.exists_utf8 value.isUtf8_print
  refine ⟨text, ?_, htext⟩
  rw [← htext, Json.ofUtf8_utf8]

theorem tokenOf_value (token : Token) : tokenOf token.value = some token := by
  have hkeyslots := itemTexts_textItems token.keyslots
  simp only [Token.value, tokenOf, Members.toList_ofList, List.length_cons, List.length_nil]
  change (itemTexts (textItems token.keyslots)).map _ = _
  rw [hkeyslots]
  rfl

private theorem digit_ascii : ∀ value < 64, Base64.digit value < 128 := by decide

theorem serde_base64 (bytes : Bytes) : Json.utf8 (serde.base64 bytes) = Base64.encode bytes := by
  have hascii : isUtf8 (Base64.encode bytes) = true := isUtf8_of_ascii fun byte hbyte => by
    obtain ⟨value, hvalue, rfl⟩ := Base64.mem_encode hbyte
    exact digit_ascii value hvalue
  obtain ⟨text, htext⟩ := Json.exists_utf8 hascii
  have hbase64 : serde.base64 bytes = text := by
    change (Json.ofUtf8 (Base64.encode bytes)).getD "" = text
    rw [← htext, Json.ofUtf8_utf8, Option.getD_some]
  rw [hbase64, htext]

theorem serde_specified : serde.Specified where
  writes token := by
    obtain ⟨text, hwrite, htext⟩ := ofUtf8_print token.value
    exact ⟨text, hwrite, by rw [htext, token.print_value]⟩
  reads token json hjson := by
    change (Json.parse (Json.utf8 json)).bind tokenOf = some token
    rw [hjson, ← token.print_value, Json.parse_print, Option.bind_some, tokenOf_value]
  encodes := serde_base64
  decodes bytes := by
    change Base64.decode (Json.utf8 (serde.base64 bytes)) = some bytes
    rw [serde_base64, Base64.decode_encode]

end Serde

/-- Every slot and envelope in range is written within the decoder's limit and read back.
Every accepted text stands for a value in range that can be written and read back, and the
slot and envelope texts of two accepted texts for one value are the same. -/
theorem token_codec (codec : Codec) (h : codec.Specified) :
    (∀ slot envelope, slot < 32 → 1 ≤ envelope.length → envelope.length ≤ 65536 →
      ∃ json, encodeToken codec slot envelope = .ok json ∧ json.utf8ByteSize ≤ 90 * 1024 ∧
        decodeToken codec json = .ok ⟨slot, envelope⟩) ∧
    (∀ json value, decodeToken codec json = .ok value →
      value.slot < 32 ∧ 1 ≤ value.bytes.length ∧ value.bytes.length ≤ 65536 ∧
        ∃ json', encodeToken codec value.slot value.bytes = .ok json' ∧
          decodeToken codec json' = .ok value) ∧
    ∀ json json' value, decodeToken codec json = .ok value → decodeToken codec json' = .ok value →
      ∃ token token', codec.tokenFromStr json = some token ∧
        codec.tokenFromStr json' = some token' ∧ token.keyslots = token'.keyslots ∧
        token.envelope = token'.envelope := by
  have hround {value : TokenEnvelope} (hslot : value.slot < 32) (hne : value.bytes ≠ [])
      (hlength : value.bytes.length ≤ 64 * 1024) :
      ∃ json, encodeToken codec value.slot value.bytes = .ok json ∧
        json.utf8ByteSize ≤ 90 * 1024 ∧ decodeToken codec json = .ok value := by
    obtain ⟨json, hencode, hjson, hsize⟩ := encodeToken_ok h hslot hne hlength
    exact ⟨json, hencode, hsize, decodeToken_spelling h hslot hne hlength hjson hsize⟩
  refine ⟨fun slot envelope hslot hpos hlength => ?_, fun json value hdecode => ?_, ?_⟩
  · have hpair : (TokenEnvelope.mk slot envelope).bytes ≠ [] := List.length_pos_iff.mp hpos
    exact hround hslot hpair hlength
  · obtain ⟨-, -, -, hslot, -, hne, hlength⟩ := decodeToken_eq_ok.mp hdecode
    obtain ⟨json', hencode, -, hagain⟩ := hround hslot hne hlength
    exact ⟨hslot, List.length_pos_iff.mpr hne, hlength, json', hencode, hagain⟩
  · intro json json' value hdecode hdecode'
    obtain ⟨-, htoken, -⟩ := decodeToken_eq_ok.mp hdecode
    obtain ⟨-, htoken', -⟩ := decodeToken_eq_ok.mp hdecode'
    exact ⟨_, _, htoken, htoken', rfl, rfl⟩

/-- A token for slot 31 is read back. -/
theorem token_codec_last : ∃ json, encodeToken serde 31 [1, 2] = .ok json ∧
    decodeToken serde json = .ok ⟨31, [1, 2]⟩ := by
  obtain ⟨json, hencode, -, hdecode⟩ := (token_codec serde serde_specified).1 31 [1, 2] (by decide)
    (by decide) (by decide)
  exact ⟨json, hencode, hdecode⟩

end Leelo.Luks
