import Leelo.Cli.Observation
import Leelo.Core.Hoare
import Leelo.Envelope.Descriptor

/-!
# The enrollment journal

An enrollment writes a journal of four records, one to a line, and a pending bundle next
to it. The bundle and three records are synced before the storage closure runs and the
last record follows it. Every file operation may fail before, after or part-way through
its effect, and the closure is free to do anything to the storage.
-/

namespace Leelo.Cli

open Leelo.Core
open Leelo.Core.Program (Behaviour)
open Leelo.Core.Fallible
open Leelo.Crypto (Primitives ascii)
open Leelo.Envelope (Descriptor)
open Leelo.Luks (IoError)
open Leelo.Sss (Secret)

/-- A reversed path without trailing separators and trailing `.` components. -/
def trimReversed : Bytes → Bytes
  | 47 :: rest => trimReversed rest
  | 46 :: 47 :: rest => trimReversed rest
  | path => path

/-- The reversed stem of a reversed file name: it ends before the last dot, unless that dot
is the first byte of the name. -/
def stemReversed (name : Bytes) : Bytes :=
  match name.dropWhile (· ≠ 46) with
  | _ :: before => if before.isEmpty then name else before
  | [] => name

/-- Replace the extension of the last component, if that is a file name. The old extension is cut
from the end first, so a name of one dot and an extension becomes that of the parent directory,
which takes no extension. -/
def withExtension (path extension : Bytes) : Bytes :=
  let trimmed := trimReversed path.reverse
  let name := trimmed.takeWhile (· ≠ 47)
  let directory := trimmed.dropWhile (· ≠ 47)
  if name = [] ∨ name = [46] ∨ name = [46, 46] then path
  else if stemReversed name = [46] ∧ trimmed = path.reverse then
    directory.reverse ++ [46, 46]
  else (stemReversed name ++ directory).reverse ++ 46 :: extension

/-- Where the bundle that is pending is kept. -/
def pendingPath (path : Bytes) : Bytes := withExtension path (ascii "pending.leelo")

/-- The hyphenated text of a UUID. -/
def uuidText (uuid : Vector UInt8 16) : Bytes :=
  let part (start size : Nat) := hexEncode ((uuid.toList.drop start).take size)
  part 0 4 ++ 45 :: (part 4 2 ++ 45 :: (part 6 2 ++ 45 :: (part 8 2 ++ 45 :: part 10 6)))

/-- The fields of a phase record, in the order of their names. -/
def phaseRecord (phase : String) (d : Descriptor) : List (Bytes × Scalar) :=
  [(ascii "binding_id", .string (hexEncode d.bindingId.toList)),
   (ascii "phase", .string (ascii phase)),
   (ascii "slot", .number d.slot.toNat),
   (ascii "volume_uuid", .string (uuidText d.volumeUuid))]

/-- The line that names the bundle and its digest. -/
def bundleRecord (P : Primitives) (path envelope : Bytes) : List (Bytes × Scalar) :=
  [(ascii "path", .string (pendingPath path)),
   (ascii "phase", .string (ascii "pending-bundle-durable")),
   (ascii "sha384", .string (hexEncode (P.sha384 envelope).toList))]

/-- One record with the line break that ends it. -/
def line (fields : List (Bytes × Scalar)) : Bytes := printObject fields ++ [newline]

/-- The four lines of a complete journal. -/
def journalLines (P : Primitives) (path : Bytes) (d : Descriptor) (envelope : Bytes) :
    List Bytes :=
  [line (phaseRecord "preflight" d),
   line (bundleRecord P path envelope),
   line (phaseRecord "prepared-and-recovery-tested" d),
   line (phaseRecord "token-written-and-slot-tested" d)]

/-- What the engine prepared. -/
structure Prepared where
  envelope : Bytes
  credential : Secret

/-- What is done to a file that is open. -/
inductive Edit where
  | write (bytes : Bytes)
  | syncFile
  | syncDirectory

/-- Creating a file, and editing it. -/
inductive FileOp where
  | create (path : Bytes) (createNew : Bool)
  | apply (path : Bytes) (edit : Edit)

/-- The operations of an enrollment. -/
inductive Op where
  | file (op : FileOp)
  /-- A change of the operation that is being observed. -/
  | observe (change : Operation → Operation)
  /-- The storage closure. -/
  | add (prepared : Prepared)

/-- The answer to each operation. -/
abbrev Ans : Op → Type
  | .file _ => Except IoError Unit
  | .observe _ => Unit
  | .add _ => Except Luks.Error Int

/-- A file, how much of it is known to be on the disk, and whether its directory entry is. -/
@[ext]
structure File where
  content : Bytes
  durable : Bytes
  listed : Bool
  written : durable <+: content

namespace File

/-- A file just created. -/
def empty : File := ⟨[], [], false, List.prefix_refl _⟩

/-- The file with more bytes written, none of them durable yet. -/
def append (file : File) (bytes : Bytes) : File :=
  ⟨file.content ++ bytes, file.durable, file.listed, file.written.trans (List.prefix_append _ _)⟩

end File

/-- The whole effect of an edit. -/
def Edit.complete : Edit → File → File
  | .write bytes, file => file.append bytes
  | .syncFile, file => ⟨file.content, file.content, file.listed, List.prefix_refl _⟩
  | .syncDirectory, file => { file with listed := true }

/-- Any part of the effect of an edit. -/
def Edit.Leaves : Edit → File → File → Prop
  | .write bytes, file, file' =>
    ∃ written, written <+: bytes ∧ file' = file.append written
  | .syncFile, file, file' =>
    file.durable <+: file'.durable ∧ file'.content = file.content ∧ file'.listed = file.listed
  | .syncDirectory, file, file' =>
    ∃ listed, (file.listed = true → listed = true) ∧ file' = { file with listed }

/-- The files of the host. -/
abbrev Files := Bytes → Option File

/-- A file system in which every operation may fail with any part of its effect. The empty
path names no file. -/
def FileOp.Responds : FileOp → Files → Except IoError Unit → Files → Prop
  | .create path createNew, files, answer, files' =>
    (path ≠ [] ∧ (createNew = true → files path = none) ∧
        files' = Function.update files path (some File.empty)) ∨
      (files' = files ∧ ∃ error, answer = .error error)
  | .apply path edit, files, answer, files' =>
    (∃ file file', files path = some file ∧ edit.Leaves file file' ∧
        (answer = .ok () → file' = edit.complete file) ∧
        files' = Function.update files path (some file')) ∨
      (files path = none ∧ files' = files ∧ ∃ error, answer = .error error)

/-- A call of the closure: the files it found, what it was given and what it answered. -/
structure Added where
  files : Files
  prepared : Prepared
  answer : Except Luks.Error Int

/-- The files, the operation, the storage that the closure works on, and the closure's calls. -/
structure State (τ : Type) where
  files : Files
  operation : Operation
  storage : τ
  added : List Added

variable {τ : Type}

/-- The behaviour of the system, over that of the storage closure. -/
def responds (closure : Prepared → τ → Except Luks.Error Int → τ → Prop) :
    Behaviour Op Ans (State τ)
  | .file op, s, answer, s' => ∃ files, op.Responds s.files answer files ∧ s' = { s with files }
  | .observe change, s, _, s' => s' = { s with operation := change s.operation }
  | .add prepared, s, answer, s' =>
    ∃ storage, closure prepared s.storage answer storage ∧
      s' = { s with storage, added := s.added ++ [⟨s.files, prepared, answer⟩] }

/-- The program of an enrollment. -/
abbrev Command (α : Type) := Fallible Op Ans (Halt CliError) α

/-- Changes the operation's report. -/
def observe (change : Operation → Operation) : Command Unit := perform (Op.observe change)

/-- A single file operation. -/
def fileCall (op : FileOp) : Command Unit := do
  ofResult (Exec.lift CliError.io (← perform (.file op)))

/-- Creates a file that must not exist. -/
def create (path : Bytes) : Command Unit := fileCall (.create path true)

/-- Writes all bytes. -/
def write (path bytes : Bytes) : Command Unit := fileCall (.apply path (.write bytes))

/-- Makes the content durable. -/
def syncFile (path : Bytes) : Command Unit := fileCall (.apply path .syncFile)

/-- Makes the entry of the file durable. -/
def syncDirectory (path : Bytes) : Command Unit := fileCall (.apply path .syncDirectory)

/-- Writes a line of the journal. -/
def record (path : Bytes) (fields : List (Bytes × Scalar)) : Command Unit :=
  write path (line fields)

/-- Writes and syncs the line of a phase. -/
def phase (path : Bytes) (name : String) (d : Descriptor) : Command Unit := do
  record path (phaseRecord name d)
  syncFile path

/-- Creates the journal and makes its first line durable. -/
def begin (path : Bytes) (d : Descriptor) : Command Unit := do
  create path
  phase path "preflight" d
  syncDirectory path
  observe (·.milestone "preflight_durable")

/-- A path that is not text cannot become a JSON value. -/
def pathValue (path : Bytes) : Command Unit :=
  ofResult (if isUtf8 path then .ok () else .error .abort)

/-- What the operator is told when the enrollment fails half way. -/
def retainMessage (path : Bytes) : Bytes :=
  ascii "retain pending bundle " ++ path ++ ascii " and the existing recovery credential"

/-- What the operator is told when only the journal failed. -/
def committedMessage (path : Bytes) (slot : UInt8) (token : Int) : Bytes :=
  ascii "enrollment committed to slot " ++ decimal slot.toNat ++ ascii " and token " ++
    ascii (toString token) ++ ascii ", but journal update failed; retain " ++ path

/-- An error that is known not to have changed the storage takes the warning back. -/
def settle (pending : Bytes) : Except Luks.Error Int → Command Int
  | .ok token => pure token
  | .error error => do
    observe fun operation =>
      if error.isPartial then operation else operation.setStorage .notMutated
    ofResult (.error (.error (.enrollment (retainMessage pending) (.luks error))))

/-- Wraps an error with a message. -/
def wrapError (message : Bytes) : Halt CliError → Halt CliError
  | .error error => .error (.enrollment message error)
  | .abort => .abort

/-- Stores the bundle, adds the slot and its token, and completes the journal. -/
def commit (P : Primitives) (path : Bytes) (d : Descriptor) (prepared : Prepared) :
    Command Int := do
  let pending := pendingPath path
  observe (·.setStage "pending_bundle")
  create pending
  write pending prepared.envelope
  syncFile pending
  syncDirectory pending
  observe (·.milestone "pending_bundle_durable")
  pathValue pending
  record path (bundleRecord P path prepared.envelope)
  phase path "prepared-and-recovery-tested" d
  observe (·.milestone "prepared_and_recovery_tested")
  observe (·.setStage "storage_commit")
  observe (·.setStorage .pendingReconciliation)
  let token ← settle pending (← perform (.add prepared))
  observe (·.committed)
  observe (·.setStage "final_journal")
  mapError (wrapError (committedMessage pending d.slot token))
    (phase path "token-written-and-slot-tested" d)
  observe (·.milestone "final_journal_durable")
  pure token

/-- The inputs of an enrollment: what its other steps build and whether they fail. -/
structure Enrollment where
  descriptor : Descriptor
  prepared : Prepared
  preflight : Except CliError Unit
  prepare : Except CliError Unit
  recovered : Except CliError Secret
  printed : Bool

/-- The result of a step outside the storage and the journal. -/
def outside {α : Type} (result : Except CliError α) : Command α :=
  ofResult (Exec.lift id result)

/-- The body of the command. -/
def run (P : Primitives) (path : Bytes) (enrollment : Enrollment) : Command Unit := do
  outside enrollment.preflight
  begin path enrollment.descriptor
  observe (·.setStage "prepare")
  outside enrollment.prepare
  observe (·.setStage "recovery_test")
  let credential ← outside enrollment.recovered
  outside (if credential = enrollment.prepared.credential then .ok ()
    else .error (.other "configuration_or_operation"))
  let _ ← commit P path enrollment.descriptor enrollment.prepared
  ofResult (if enrollment.printed then .ok () else .error .abort)

/-- The end of a command: an abort reports nothing. -/
def report : Except (Halt CliError) Unit → Command Unit
  | .ok () => observe (·.finish (.ok ()))
  | .error (.error error) => observe (·.finish (.error error : Except CliError Unit))
  | .error .abort => ofResult (.error .abort)

/-- The command under observation. -/
def enroll (P : Primitives) (path : Bytes) (enrollment : Enrollment) : Command Unit := do
  observe fun _ => Operation.new "enroll"
  report (← attempt (run P path enrollment))

end Leelo.Cli
