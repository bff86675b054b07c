import Leelo.Core.Json
import Leelo.Telemetry.Record

/-!
# Records as JSON

A record is one compact object with its members in the order of the fields. The printer of
doubles belongs to the JSON library. A valid record is short because its labels are.
-/

namespace Leelo.Telemetry

open Leelo.Core Leelo.Core.Json

/-- An attempt identifier, printed as an array of numbers. -/
def octets (bytes : Vector UInt8 16) : Bytes :=
  array (bytes.toList.map fun byte => decimal byte.toNat)

/-- The JSON object of a record, its fields in the order of the source. -/
def Record.encode (printDouble : F64 → Bytes) (record : Record) : Bytes :=
  object
    [("schema_version", decimal record.schemaVersion.toNat),
     ("component", string record.component),
     ("event", string record.event),
     ("operation", string record.operation),
     ("stage", string record.stage),
     ("outcome", string record.outcome),
     ("reason", string record.reason),
     ("duration_seconds", printDouble record.durationSeconds),
     ("mode", string record.mode),
     ("provider_index", optional (fun index => decimal index.toNat) record.providerIndex),
     ("storage_state", string record.storageState),
     ("awaiting_boot_test", boolean record.awaitingBootTest),
     ("degraded", boolean record.degraded),
     ("native_code", optional (fun code => integer code.toInt) record.nativeCode),
     ("software_version", string record.softwareVersion),
     ("attempt_id", optional octets record.attemptId),
     ("boot_id", optional octets record.bootId),
     ("sequence", decimal record.sequence.toNat),
     ("unix_time_ms", optional (fun time => decimal time.toNat) record.unixTimeMs),
     ("dropped_before", decimal record.droppedBefore.toNat)]

/-- The bounds of the members of a valid record. -/
def recordBounds : List (String × Nat) :=
  [("schema_version", 3), ("component", 290), ("event", 290), ("operation", 290),
   ("stage", 290), ("outcome", 290), ("reason", 290), ("duration_seconds", 24), ("mode", 290),
   ("provider_index", 4), ("storage_state", 290), ("awaiting_boot_test", 5), ("degraded", 5),
   ("native_code", 20), ("software_version", 290), ("attempt_id", 66), ("boot_id", 66),
   ("sequence", 20), ("unix_time_ms", 20), ("dropped_before", 20)]

theorem fits_word (value : UInt64) : Fits 20 (decimal value.toNat) :=
  fits_decimal (by decide) (value.toNat_lt.trans (by decide))

/-- An octet has at most three digits. -/
theorem fits_octet (value : UInt8) : Fits 3 (decimal value.toNat) :=
  fits_decimal (by decide) (value.toNat_lt.trans (by decide))

theorem fits_octets (bytes : Vector UInt8 16) : Fits 66 (octets bytes) := by
  have hitems : ∀ item ∈ bytes.toList.map fun byte => decimal byte.toNat, Fits 3 item := by
    intro item hitem
    obtain ⟨byte, -, rfl⟩ := List.mem_map.mp hitem
    exact fits_octet byte
  have hfits := fits_array hitems
  rw [List.length_map, Vector.length_toList] at hfits
  exact hfits

theorem fits_code (code : Int64) : Fits 20 (integer code.toInt) := by
  refine fits_integer (by decide) ?_
  have hlow := code.le_toInt
  have hhigh := code.toInt_lt
  omega

/-- Every text of a valid record is short. -/
theorem Record.size_of_valid {record : Record} (h : record.valid = true) :
    (∀ label ∈ record.labels, label.utf8ByteSize ≤ 48) ∧
      record.softwareVersion.utf8ByteSize ≤ 48 := by
  unfold Record.valid validVersion at h
  simp only [Bool.and_eq_true, List.all_eq_true, decide_eq_true_eq] at h
  obtain ⟨⟨⟨⟨⟨-, hversion, -⟩, hlabels⟩, -⟩, -⟩, -⟩ := h
  refine ⟨fun label hlabel => ?_, hversion⟩
  have hvalid := hlabels label hlabel
  unfold validLabel at hvalid
  simp only [Bool.and_eq_true, decide_eq_true_eq] at hvalid
  exact hvalid.1.2

/-- A valid record fits the bounds of its fields. -/
theorem Record.fits_encode {printDouble : F64 → Bytes} {record : Record}
    (h : record.valid = true) (hdouble : Fits 24 (printDouble record.durationSeconds)) :
    Fits (objectBound recordBounds) (record.encode printDouble) := by
  obtain ⟨hlabels, hversion⟩ := Record.size_of_valid h
  simp only [Record.labels, List.forall_mem_cons, List.not_mem_nil, false_implies, implies_true,
    and_true] at hlabels
  obtain ⟨hcomponent, hevent, hoperation, hstage, houtcome, hreason, hmode, hstorage⟩ := hlabels
  refine fits_object ?_
  refine .cons ⟨rfl, fits_octet _⟩ <| .cons ⟨rfl, fits_string hcomponent⟩ <|
    .cons ⟨rfl, fits_string hevent⟩ <| .cons ⟨rfl, fits_string hoperation⟩ <|
    .cons ⟨rfl, fits_string hstage⟩ <| .cons ⟨rfl, fits_string houtcome⟩ <|
    .cons ⟨rfl, fits_string hreason⟩ <| .cons ⟨rfl, hdouble⟩ <|
    .cons ⟨rfl, fits_string hmode⟩ <| .cons ⟨rfl, fits_optional (by decide) fun index _ => ?_⟩ <|
    .cons ⟨rfl, fits_string hstorage⟩ <| .cons ⟨rfl, fits_boolean _⟩ <|
    .cons ⟨rfl, fits_boolean _⟩ <| .cons ⟨rfl, fits_optional (by decide) fun code _ => ?_⟩ <|
    .cons ⟨rfl, fits_string hversion⟩ <| .cons ⟨rfl, fits_optional (by decide) fun id _ => ?_⟩ <|
    .cons ⟨rfl, fits_optional (by decide) fun id _ => ?_⟩ <| .cons ⟨rfl, fits_word _⟩ <|
    .cons ⟨rfl, fits_optional (by decide) fun time _ => ?_⟩ <| .cons ⟨rfl, fits_word _⟩ .nil
  · exact (fits_octet index).mono (by decide)
  · exact fits_code code
  · exact fits_octets id
  · exact fits_octets id
  · exact fits_word time

end Leelo.Telemetry
