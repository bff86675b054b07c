import Leelo.Cli.Journal
import Leelo.Envelope.Body
import Leelo.Luks.Safety

/-!
# Durable order of an enrollment

In every state that an enrollment passes through, the journal is a prefix of its four
lines, no file has lost anything, and the storage closure has run at most once, from a
state in which the bundle and three lines were durable. At the end the reported storage
state follows from what the closure answered.
-/

namespace Leelo.Cli

open Leelo.Core
open Leelo.Core.Fallible
open Leelo.Core.Program (Visits)
open Leelo.Crypto (Primitives ascii)
open Leelo.Envelope (Descriptor)
open Leelo.Sss (Secret)

/-- Nothing is deleted or overwritten. -/
def Grows (files files' : Files) : Prop :=
  ∀ path file, files path = some file → ∃ file', files' path = some file' ∧
    file.content <+: file'.content ∧ file.durable <+: file'.durable ∧
    (file.listed = true → file'.listed = true)

theorem Grows.refl (files : Files) : Grows files files :=
  fun _ file h => ⟨file, h, List.prefix_refl _, List.prefix_refl _, id⟩

theorem Grows.trans {files files₁ files₂ : Files} (h : Grows files files₁)
    (h' : Grows files₁ files₂) : Grows files files₂ := by
  intro path file hfile
  obtain ⟨file₁, hfile₁, hcontent, hdurable, hlisted⟩ := h path file hfile
  obtain ⟨file₂, hfile₂, hcontent', hdurable', hlisted'⟩ := h' path file₁ hfile₁
  exact ⟨file₂, hfile₂, hcontent.trans hcontent', hdurable.trans hdurable',
    fun hl => hlisted' (hlisted hl)⟩

/-- Part of an effect never writes more than the whole. -/
theorem Edit.Leaves.content_within {edit : Edit} {file file' : File}
    (h : edit.Leaves file file') : file'.content <+: (edit.complete file).content := by
  cases edit with
  | write bytes =>
    obtain ⟨written, hwritten, rfl⟩ := h
    exact (List.prefix_append_right_inj _).mpr hwritten
  | syncFile => exact h.2.1 ▸ List.prefix_refl _
  | syncDirectory =>
    obtain ⟨listed, _, rfl⟩ := h
    exact List.prefix_refl _

/-- Operations that neither truncate nor replace a file. -/
def Op.Keeps : Op → Prop
  | .file (.create _ createNew) => createNew = true
  | _ => True

variable {τ : Type} {closure : Prepared → τ → Except Luks.Error Int → τ → Prop}

/-- The journal, the bundle and their directory entries as the closure must find them. -/
structure Durable (P : Primitives) (path : Bytes) (enrollment : Enrollment) (call : Added) :
    Prop where
  given : call.prepared = enrollment.prepared
  journal : ∃ file, call.files path = some file ∧ file.listed = true ∧
    file.content = ((journalLines P path enrollment.descriptor
      enrollment.prepared.envelope).take 3).flatten ∧
    file.durable = file.content
  bundle : ∃ file, call.files (pendingPath path) = some file ∧ file.listed = true ∧
    file.content = enrollment.prepared.envelope ∧ file.durable = file.content

/-- The storage state that the closure's calls call for. -/
def storageOf : List Added → StorageState
  | [] => .notMutated
  | added :: _ =>
    match added.answer with
    | .ok _ => .committed
    | .error error => if error.isPartial then .pendingReconciliation else .notMutated

section Order

variable (P : Primitives) (path : Bytes) (enrollment : Enrollment) (before : Files)

/-- All bytes of a complete journal. -/
def wholeJournal : Bytes :=
  (journalLines P path enrollment.descriptor enrollment.prepared.envelope).flatten

/-- The journal is as it was, or it is new and a prefix of a complete journal. -/
def Torn (files : Files) : Prop :=
  files path = before path ∨
    path ≠ [] ∧ before path = none ∧ ∃ file, files path = some file ∧
      file.content <+: wholeJournal P path enrollment

/-- The journal is complete and synced. -/
def Complete (files : Files) : Prop :=
  ∃ file, files path = some file ∧ file.content = wholeJournal P path enrollment ∧
    file.durable = file.content

/-- At most one call of the closure, in the right place. -/
structure Called (added : List Added) : Prop where
  once : added.length ≤ 1
  durable : ∀ call ∈ added, Durable P path enrollment call

/-- What holds in every state of an enrollment. -/
structure Ordered (s : State τ) : Prop where
  journal : Torn P path enrollment before s.files
  called : Called P path enrollment s.added

/-- The files, the calls and the storage state at one point of the sequence. -/
structure Stands (layout : Files → Prop) (added : List Added) (storage : StorageState)
    (s : State τ) : Prop where
  layout : layout s.files
  added : s.added = added
  storage : s.operation.storage = storage

/-- The storage reported is that of the calls made. -/
def Settled (s : State τ) : Prop := s.operation.storage = storageOf s.added

/-- The new journal and, once it is there, the new bundle. -/
structure Held (journal : File) (bundle : Option File) (files : Files) : Prop where
  named : path ≠ []
  vacant : before path = none
  journal : files path = some journal
  bundle : ∀ file, bundle = some file →
    pendingPath path ≠ path ∧ files (pendingPath path) = some file

variable (closure) in
/-- From `pre` the step keeps the order in every state, and an error leaves a settled state. -/
abbrev Takes {α : Type} (pre : State τ → Prop) (x : Command α) (post : α → State τ → Prop) :
    Prop :=
  Meets (responds closure) (Ordered P path enrollment before) pre x post fun _ => Settled

end Order

section Steps

variable {P : Primitives} {path : Bytes} {enrollment : Enrollment} {before : Files}
  {layout layout' : Files → Prop} {added : List Added} {storage storage' : StorageState}

/-- A point at which the order holds. -/
structure Sound (P : Primitives) (path : Bytes) (enrollment : Enrollment) (before : Files)
    (layout : Files → Prop) (added : List Added) : Prop where
  torn : ∀ files, layout files → Torn P path enrollment before files
  called : Called P path enrollment added

theorem Sound.ordered (h : Sound P path enrollment before layout added) {s : State τ}
    (hs : Stands layout added storage s) : Ordered P path enrollment before s :=
  ⟨h.torn _ hs.layout, hs.added ▸ h.called⟩

theorem Stands.settled {s : State τ} (hs : Stands layout added (storageOf added) s) :
    Settled s := by
  unfold Settled
  rw [hs.storage, hs.added]

/-- An observation touches no file. -/
theorem observe_takes {change : Operation → Operation}
    (h : Sound P path enrollment before layout added)
    (hchange : ∀ operation : Operation, operation.storage = storage →
      (change operation).storage = storage') :
    Takes closure P path enrollment before (Stands layout added storage) (observe change)
      fun _ => Stands layout added storage' := by
  refine meets_perform (fun s => h.ordered) ?_
  rintro s answer s' hs rfl
  have hs' : Stands layout added storage' { s with operation := change s.operation } :=
    ⟨hs.layout, hs.added, hchange _ hs.storage⟩
  exact ⟨h.ordered hs', hs'⟩

theorem ofResult_takes {α : Type} (h : Sound P path enrollment before layout added)
    (result : Except (Halt CliError) α) :
    Takes closure P path enrollment before (Stands layout added (storageOf added))
      (ofResult result) fun _ => Stands layout added (storageOf added) := by
  refine meets_ofResult fun s hs => ⟨h.ordered hs, ?_⟩
  cases result with
  | ok a => exact hs
  | error e => exact hs.settled

/-- A file operation leaves files torn at worst, and where it succeeds the next layout. -/
theorem fileCall_takes {op : FileOp} (h : Sound P path enrollment before layout added)
    (hop : ∀ {files answer files'}, layout files → op.Responds files answer files' →
      Torn P path enrollment before files' ∧ (answer = .ok () → layout' files')) :
    Takes closure P path enrollment before (Stands layout added (storageOf added))
      (fileCall op) fun _ => Stands layout' added (storageOf added) := by
  have hperform : Takes closure P path enrollment before
      (Stands layout added (storageOf added)) (perform (Op.file op)) fun answer s =>
        Ordered P path enrollment before s ∧ Settled s ∧
          (answer = .ok () → Stands layout' added (storageOf added) s) := by
    refine meets_perform (fun s => h.ordered) ?_
    rintro s answer s' hs ⟨files, hresponds, rfl⟩
    obtain ⟨htorn, hlayout⟩ := hop hs.layout hresponds
    have hordered : Ordered P path enrollment before { s with files } :=
      ⟨htorn, hs.added ▸ h.called⟩
    exact ⟨hordered, hordered, hs.settled, fun ha => ⟨hlayout ha, hs.added, hs.storage⟩⟩
  refine meets_bind hperform fun answer => meets_ofResult fun s hs => ⟨hs.1, ?_⟩
  cases answer with
  | ok _ => exact hs.2.2 rfl
  | error e => exact hs.2.1

variable {journal file : File} {bundle : Option File}

theorem Held.torn (hcontent : journal.content <+: wholeJournal P path enrollment) {files : Files}
    (h : Held path before journal bundle files) : Torn P path enrollment before files :=
  .inr ⟨h.named, h.vacant, journal, h.journal, hcontent⟩

/-- The journal is created empty. -/
theorem create_journal (hcalled : Called P path enrollment added) :
    Takes closure P path enrollment before
      (Stands (fun files => files path = before path) added (storageOf added)) (create path)
      fun _ => Stands (Held path before .empty none) added (storageOf added) := by
  refine fileCall_takes ⟨fun _ h => .inl h, hcalled⟩ ?_
  intro files answer files' hfiles hresponds
  rcases hresponds with ⟨hnamed, hvacant, rfl⟩ | ⟨rfl, error, rfl⟩
  · have hheld : Held path before .empty none (Function.update files path (some File.empty)) :=
      ⟨hnamed, hfiles ▸ hvacant rfl, Function.update_self .., fun _ h => by cases h⟩
    exact ⟨hheld.torn List.nil_prefix, fun _ => hheld⟩
  · exact ⟨.inl hfiles, fun h => by cases h⟩

/-- An edit of the journal. -/
theorem apply_journal {edit : Edit} (hcalled : Called P path enrollment added)
    (hcontent : journal.content <+: wholeJournal P path enrollment)
    (hcomplete : (edit.complete journal).content <+: wholeJournal P path enrollment) :
    Takes closure P path enrollment before
      (Stands (Held path before journal bundle) added (storageOf added))
      (fileCall (.apply path edit))
      fun _ => Stands (Held path before (edit.complete journal) bundle) added
        (storageOf added) := by
  refine fileCall_takes ⟨fun _ h => h.torn hcontent, hcalled⟩ ?_
  intro files answer files' hheld hresponds
  rcases hresponds with ⟨old, new, hold, hleaves, hok, rfl⟩ | ⟨hmissing, _⟩
  swap
  · cases hmissing.symm.trans hheld.journal
  cases hheld.journal.symm.trans hold
  have hnew : Held path before new bundle (Function.update files path (some new)) := by
    refine ⟨hheld.named, hheld.vacant, Function.update_self .., fun file hfile => ?_⟩
    obtain ⟨hne, hbundle⟩ := hheld.bundle file hfile
    exact ⟨hne, (Function.update_of_ne hne ..).trans hbundle⟩
  exact ⟨hnew.torn (hleaves.content_within.trans hcomplete), fun ha => hok ha ▸ hnew⟩

/-- The bundle is created empty. -/
theorem create_bundle (hcalled : Called P path enrollment added)
    (hcontent : journal.content <+: wholeJournal P path enrollment) :
    Takes closure P path enrollment before
      (Stands (Held path before journal none) added (storageOf added))
      (create (pendingPath path))
      fun _ => Stands (Held path before journal (some .empty)) added (storageOf added) := by
  refine fileCall_takes ⟨fun _ h => h.torn hcontent, hcalled⟩ ?_
  intro files answer files' hheld hresponds
  rcases hresponds with ⟨_, hvacant, rfl⟩ | ⟨rfl, error, rfl⟩
  · -- the journal exists, so the new file is another one
    have hne : pendingPath path ≠ path := by
      intro heq
      have hnone := hvacant rfl
      rw [heq, hheld.journal] at hnone
      cases hnone
    have hnew : Held path before journal (some .empty)
        (Function.update files (pendingPath path) (some File.empty)) := by
      refine ⟨hheld.named, hheld.vacant,
        (Function.update_of_ne hne.symm ..).trans hheld.journal, ?_⟩
      rintro file ⟨⟩
      exact ⟨hne, Function.update_self ..⟩
    exact ⟨hnew.torn hcontent, fun _ => hnew⟩
  · exact ⟨hheld.torn hcontent, fun h => by cases h⟩

/-- An edit of the bundle. -/
theorem apply_bundle {edit : Edit} (hcalled : Called P path enrollment added)
    (hcontent : journal.content <+: wholeJournal P path enrollment) :
    Takes closure P path enrollment before
      (Stands (Held path before journal (some file)) added (storageOf added))
      (fileCall (.apply (pendingPath path) edit))
      fun _ => Stands (Held path before journal (some (edit.complete file))) added
        (storageOf added) := by
  refine fileCall_takes ⟨fun _ h => h.torn hcontent, hcalled⟩ ?_
  intro files answer files' hheld hresponds
  obtain ⟨hne, hbundle⟩ := hheld.bundle file rfl
  rcases hresponds with ⟨old, new, hold, hleaves, hok, rfl⟩ | ⟨hmissing, _⟩
  swap
  · cases hmissing.symm.trans hbundle
  cases hbundle.symm.trans hold
  have hnew : Held path before journal (some new)
      (Function.update files (pendingPath path) (some new)) := by
    refine ⟨hheld.named, hheld.vacant,
        (Function.update_of_ne hne.symm ..).trans hheld.journal, ?_⟩
    rintro file ⟨⟩
    exact ⟨hne, Function.update_self ..⟩
  exact ⟨hnew.torn hcontent, fun ha => hok ha ▸ hnew⟩

end Steps

section Sequence

variable {P : Primitives} {path : Bytes} {enrollment : Enrollment} {before : Files}

theorem called_nil : Called P path enrollment [] :=
  ⟨Nat.zero_le _, fun _ h => absurd h List.not_mem_nil⟩

/-- The first lines of a complete journal. -/
def firstLines (P : Primitives) (path : Bytes) (enrollment : Enrollment) (count : Nat) : Bytes :=
  ((journalLines P path enrollment.descriptor enrollment.prepared.envelope).take count).flatten

theorem firstLines_within (count : Nat) :
    firstLines P path enrollment count <+: wholeJournal P path enrollment :=
  List.IsPrefix.flatten ( List.take_prefix count _)

theorem firstLines_succ {count : Nat} {text : Bytes}
    (h : (journalLines P path enrollment.descriptor enrollment.prepared.envelope)[count]? =
      some text) :
    firstLines P path enrollment (count + 1) = firstLines P path enrollment count ++ text := by
  unfold firstLines
  rw [List.take_add_one, h, List.flatten_append]
  simp only [Option.toList_some, List.flatten_cons, List.flatten_nil, List.append_nil]

/-- The journal with its first lines written and synced. -/
def journalAt (P : Primitives) (path : Bytes) (enrollment : Enrollment) (count : Nat)
    (listed : Bool) : File where
  content := firstLines P path enrollment count
  durable := firstLines P path enrollment count
  listed := listed
  written := List.prefix_refl _

variable {journal : File} {bundle : Option File} {added : List Added} {count : Nat}

theorem content_append {fields : List (Bytes × Scalar)}
    (hcontent : journal.content = firstLines P path enrollment count)
    (hline : (journalLines P path enrollment.descriptor enrollment.prepared.envelope)[count]? =
      some (line fields)) :
    (journal.append (line fields)).content = firstLines P path enrollment (count + 1) := by
  rw [firstLines_succ hline, ← hcontent]
  rfl

/-- The next line of the journal. -/
theorem record_takes {fields : List (Bytes × Scalar)} (hcalled : Called P path enrollment added)
    (hcontent : journal.content = firstLines P path enrollment count)
    (hline : (journalLines P path enrollment.descriptor enrollment.prepared.envelope)[count]? =
      some (line fields)) :
    Takes closure P path enrollment before
      (Stands (Held path before journal bundle) added (storageOf added)) (record path fields)
      fun _ => Stands (Held path before (journal.append (line fields)) bundle) added
        (storageOf added) := by
  refine apply_journal hcalled (hcontent ▸ firstLines_within count) ?_
  change (journal.append (line fields)).content <+: _
  rw [content_append hcontent hline]
  exact firstLines_within (count + 1)

/-- The next line of the journal and its sync. -/
theorem phase_takes {name : String} {d : Descriptor} (hcalled : Called P path enrollment added)
    (hcontent : journal.content = firstLines P path enrollment count)
    (hline : (journalLines P path enrollment.descriptor enrollment.prepared.envelope)[count]? =
      some (line (phaseRecord name d))) :
    Takes closure P path enrollment before
      (Stands (Held path before journal bundle) added (storageOf added)) (phase path name d)
      fun _ => Stands (Held path before
        (journalAt P path enrollment (count + 1) journal.listed) bundle) added
        (storageOf added) := by
  have happend := content_append hcontent hline
  have hsynced : Edit.syncFile.complete (journal.append (line (phaseRecord name d))) =
      journalAt P path enrollment (count + 1) journal.listed := File.ext happend happend rfl
  have hprefix : (journal.append (line (phaseRecord name d))).content <+:
      wholeJournal P path enrollment := happend ▸ firstLines_within (count + 1)
  rw [← hsynced]
  exact meets_bind (record_takes hcalled hcontent hline) fun _ =>
    apply_journal hcalled hprefix hprefix

theorem begin_takes :
    Takes closure P path enrollment before
      (Stands (fun files => files path = before path) [] .notMutated)
      (begin path enrollment.descriptor)
      fun _ => Stands (Held path before (journalAt P path enrollment 1 true) none) []
        .notMutated := by
  refine meets_bind (create_journal called_nil) fun _ => ?_
  have hempty : File.empty.content = firstLines P path enrollment 0 := rfl
  refine meets_bind (phase_takes called_nil hempty rfl) fun _ => ?_
  refine meets_bind (apply_journal called_nil (firstLines_within 1) (firstLines_within 1))
    fun _ => ?_
  exact observe_takes ⟨fun _ h => h.torn (firstLines_within 1), called_nil⟩ fun _ h => h

/-- The bundle with all of its content written and synced. -/
def bundleOf (envelope : Bytes) : File where
  content := envelope
  durable := envelope
  listed := true
  written := List.prefix_refl _

/-- The closure finds everything durable and is called for the first time. -/
theorem add_takes :
    Takes closure P path enrollment before
      (Stands (Held path before (journalAt P path enrollment 3 true)
        (some (bundleOf enrollment.prepared.envelope))) [] .pendingReconciliation)
      (perform (Op.add enrollment.prepared)) fun answer s =>
        ∃ call : Added, (call.answer = answer ∧ Called P path enrollment [call]) ∧
          Stands (Held path before (journalAt P path enrollment 3 true)
            (some (bundleOf enrollment.prepared.envelope))) [call] .pendingReconciliation s := by
  refine meets_perform (fun s => Sound.ordered ⟨fun _ h => h.torn (firstLines_within 3),
    called_nil⟩) ?_
  rintro s answer s' hs ⟨storage, _, rfl⟩
  have hcall : Called P path enrollment [⟨s.files, enrollment.prepared, answer⟩] := by
    refine ⟨Nat.le_refl 1, fun call hcall => ?_⟩
    cases List.mem_singleton.mp hcall
    exact ⟨rfl, ⟨_, hs.layout.journal, rfl, rfl, rfl⟩,
      ⟨_, (hs.layout.bundle _ rfl).2, rfl, rfl, rfl⟩⟩
  have hstands : Stands (Held path before (journalAt P path enrollment 3 true)
      (some (bundleOf enrollment.prepared.envelope))) [⟨s.files, enrollment.prepared, answer⟩]
      .pendingReconciliation
      { s with storage, added := s.added ++ [⟨s.files, enrollment.prepared, answer⟩] } := by
    refine ⟨hs.layout, ?_, hs.storage⟩
    rw [hs.added, List.nil_append]
  have hsound : Sound P path enrollment before
      (Held path before (journalAt P path enrollment 3 true)
        (some (bundleOf enrollment.prepared.envelope)))
      [⟨s.files, enrollment.prepared, answer⟩] :=
    ⟨fun _ h => h.torn (firstLines_within 3), hcall⟩
  exact ⟨hsound.ordered hstands, _, ⟨rfl, hcall⟩, hstands⟩

/-- After the closure's answer the state is settled, or the answer was a success. -/
theorem settle_takes {call : Added} {layout : Files → Prop} {pending : Bytes}
    (h : Sound P path enrollment before layout [call]) :
    Takes closure P path enrollment before (Stands layout [call] .pendingReconciliation)
      (settle pending call.answer) fun token s =>
        call.answer = .ok token ∧ Stands layout [call] .pendingReconciliation s := by
  cases hanswer : call.answer with
  | ok token => exact meets_pure fun s hs => ⟨h.ordered hs, rfl, hs⟩
  | error error =>
    have hstorage : storageOf [call] =
        if error.isPartial then .pendingReconciliation else .notMutated := by
      simp only [storageOf, hanswer]
    have hobserve : ∀ operation : Operation, operation.storage = .pendingReconciliation →
        (if error.isPartial then operation else operation.setStorage .notMutated).storage =
          storageOf [call] := by
      intro operation hoperation
      rw [hstorage]
      by_cases hpart : error.isPartial = true
      · rw [if_pos hpart, if_pos hpart, hoperation]
      · rw [if_neg hpart, if_neg hpart, Operation.storage_setStorage]
    refine meets_bind (observe_takes h hobserve) fun _ => ?_
    exact meets_ofResult fun s hs => ⟨h.ordered hs, hs.settled⟩

/-- The volume is called between durable files, and a success leaves the journal complete. -/
theorem commit_takes :
    Takes closure P path enrollment before
      (Stands (Held path before (journalAt P path enrollment 1 true) none) [] .notMutated)
      (commit P path enrollment.descriptor enrollment.prepared)
      fun _ s => Ordered P path enrollment before s ∧ Settled s ∧
        Complete P path enrollment s.files := by
  have hone : (journalAt P path enrollment 1 true).content <+: wholeJournal P path enrollment :=
    firstLines_within 1
  refine meets_bind (observe_takes ⟨fun _ h => h.torn hone, called_nil⟩ fun _ h => h) fun _ => ?_
  refine meets_bind (create_bundle called_nil hone) fun _ => ?_
  refine meets_bind (apply_bundle called_nil hone) fun _ => ?_
  refine meets_bind (apply_bundle called_nil hone) fun _ => ?_
  refine meets_bind (apply_bundle called_nil hone) fun _ => ?_
  refine meets_bind (observe_takes ⟨fun _ h => h.torn hone, called_nil⟩ fun _ h => h) fun _ => ?_
  refine meets_bind (ofResult_takes ⟨fun _ h => h.torn hone, called_nil⟩ _) fun _ => ?_
  refine meets_bind (record_takes called_nil rfl rfl) fun _ => ?_
  refine meets_bind (phase_takes called_nil (content_append rfl rfl) rfl) fun _ => ?_
  have hthree : ∀ {bundle added}, Called P path enrollment added →
      Sound P path enrollment before
        (Held path before (journalAt P path enrollment 3 true) bundle) added :=
    fun hcalled => ⟨fun _ h => h.torn (firstLines_within 3), hcalled⟩
  refine meets_bind (observe_takes (hthree called_nil) fun _ h => h) fun _ => ?_
  refine meets_bind (observe_takes (hthree called_nil) fun _ h => h) fun _ => ?_
  refine meets_bind (observe_takes (hthree called_nil) fun operation _ =>
    operation.storage_setStorage .pendingReconciliation) fun _ => ?_
  refine meets_bind add_takes fun answer => Program.meets_exists fun call => ?_
  refine Program.meets_assume fun ⟨hanswer, hcalled⟩ => ?_
  subst hanswer
  refine meets_bind (settle_takes (hthree hcalled)) fun token => Program.meets_assume fun hok => ?_
  have hcommitted : storageOf [call] = .committed := by simp only [storageOf, hok]
  refine meets_bind (observe_takes (hthree hcalled) fun operation _ =>
    (operation.storage_committed).trans hcommitted.symm) fun _ => ?_
  refine meets_bind (observe_takes (hthree hcalled) fun _ h => h) fun _ => ?_
  refine meets_bind (meets_mapError (phase_takes hcalled rfl rfl) fun _ _ h => h) fun _ => ?_
  have hfour : Sound P path enrollment before
      (Held path before (journalAt P path enrollment 4 true)
        (some (bundleOf enrollment.prepared.envelope))) [call] :=
    ⟨fun _ h => h.torn (firstLines_within 4), hcalled⟩
  refine meets_bind (observe_takes hfour fun _ h => h) fun _ => ?_
  exact meets_pure fun s hs => ⟨hfour.ordered hs, hfour.ordered hs, hs.settled,
    _, hs.layout.journal, rfl, rfl⟩

/-- The body keeps the order and leaves a complete journal where it succeeds. -/
theorem run_takes :
    Takes closure P path enrollment before
      (Stands (fun files => files path = before path) [] .notMutated) (run P path enrollment)
      fun _ s => Settled s ∧ Complete P path enrollment s.files := by
  have hbefore : Sound P path enrollment before (fun files => files path = before path) [] :=
    ⟨fun _ h => .inl h, called_nil⟩
  have hone : Sound P path enrollment before
      (Held path before (journalAt P path enrollment 1 true) none) [] :=
    ⟨fun _ h => h.torn (firstLines_within 1), called_nil⟩
  refine meets_bind (ofResult_takes hbefore _) fun _ => meets_bind begin_takes fun _ => ?_
  refine meets_bind (observe_takes hone fun _ h => h) fun _ => ?_
  refine meets_bind (ofResult_takes hone _) fun _ => ?_
  refine meets_bind (observe_takes hone fun _ h => h) fun _ => ?_
  refine meets_bind (ofResult_takes hone _) fun _ => ?_
  refine meets_bind (ofResult_takes hone _) fun _ => ?_
  refine meets_bind commit_takes fun _ => meets_ofResult fun s hs => ⟨hs.1, ?_⟩
  by_cases hprinted : enrollment.printed = true
  · rw [if_pos hprinted]
    exact hs.2
  · rw [if_neg hprinted]
    exact hs.2.1

/-- The last event tells the storage state that the closure's calls call for, and a success
only of a complete journal. -/
structure Reported (P : Primitives) (path : Bytes) (enrollment : Enrollment) (s : State τ) :
    Prop where
  storage : s.operation.reported = some (storageOf s.added).name
  success : s.operation.concluded = some "success" → Complete P path enrollment s.files

/-- The final report says what the calls did. -/
theorem report_meets (result : Except (Halt CliError) Unit) :
    Meets (responds closure) (Ordered P path enrollment before)
      (fun s => Ordered P path enrollment before s ∧ Settled s ∧
        (result = .ok () → Complete P path enrollment s.files)) (report result)
      (fun _ => Reported P path enrollment) fun _ _ => True := by
  have hfinish : ∀ final : Except CliError Unit,
      Meets (responds closure) (Ordered P path enrollment before)
        (fun s => Ordered P path enrollment before s ∧ Settled s ∧
          (final = .ok () → Complete P path enrollment s.files))
        (observe (·.finish final)) (fun _ => Reported P path enrollment) fun _ _ => True := by
    intro final
    refine meets_perform (fun s hs => hs.1) ?_
    rintro s answer s' ⟨hordered, hsettled, hcomplete⟩ rfl
    refine ⟨⟨hordered.journal, hordered.called⟩, ?_, fun hsuccess => hcomplete ?_⟩
    · change (s.operation.finish final).reported = _
      rw [Operation.reported_finish, hsettled]
    · change (s.operation.finish final).concluded = _ at hsuccess
      rw [Operation.concluded_finish] at hsuccess
      cases final with
      | ok => rfl
      | error error =>
        have hname := Option.some_inj.mp hsuccess
        simp [Operation.resultName] at hname
  rcases result with (error | _) | _
  · exact (hfinish _).mono (fun s hs => ⟨hs.1, hs.2.1, fun h => by cases h⟩) fun _ _ h => h
  · exact meets_ofResult fun s hs => ⟨hs.1, trivial⟩
  · exact (hfinish _).mono (fun s hs => ⟨hs.1, hs.2.1, fun _ => hs.2.2 rfl⟩) fun _ _ h => h

/-- The whole command keeps the order and reports what it did. -/
theorem enroll_meets :
    Meets (responds closure) (Ordered P path enrollment before)
      (fun s => ∃ storage, Stands (fun files => files path = before path) [] storage s)
      (enroll P path enrollment) (fun _ => Reported P path enrollment) fun _ _ => True := by
  have hbefore : Sound P path enrollment before (fun files => files path = before path) [] :=
    ⟨fun _ h => .inl h, called_nil⟩
  refine Program.meets_exists fun storage => ?_
  have hnew : Meets (responds closure) (Ordered P path enrollment before)
      (Stands (fun files => files path = before path) [] storage)
      (observe fun _ => Operation.new "enroll")
      (fun _ => Stands (fun files => files path = before path) [] .notMutated) fun _ _ => True :=
    (observe_takes hbefore fun _ _ => rfl).mono (fun _ h => h) fun result s h => by
      cases result with
      | ok a => exact h
      | error e => trivial
  refine meets_bind hnew fun _ => meets_bind (meets_attempt run_takes) fun result => ?_
  refine (report_meets result).mono (fun s hs => ⟨hs.1, ?_⟩) fun _ _ h => h
  cases result with
  | ok a => exact ⟨hs.2.1, fun _ => hs.2.2⟩
  | error e => exact ⟨hs.2, fun h => by cases h⟩

end Sequence

/-- The calls of the closure, one after the other, take the storage from one state to another. -/
def Chain (closure : Prepared → τ → Except Luks.Error Int → τ → Prop) :
    List Added → τ → τ → Prop
  | [], storage, storage' => storage' = storage
  | call :: calls, storage, storage' =>
    ∃ next, closure call.prepared storage call.answer next ∧ Chain closure calls next storage'

/-- Chains of calls compose. -/
theorem Chain.append {calls calls' : List Added} {storage storage₁ storage₂ : τ}
    (h : Chain closure calls storage storage₁) (h' : Chain closure calls' storage₁ storage₂) :
    Chain closure (calls ++ calls') storage storage₂ := by
  induction calls generalizing storage with
  | nil =>
    cases h
    exact h'
  | cons call calls ih =>
    obtain ⟨next, hcall, hrest⟩ := h
    exact ⟨next, hcall, ih hrest⟩

/-- Only the closure changes the storage, and every call of it is on record. -/
def Recorded (closure : Prepared → τ → Except Luks.Error Int → τ → Prop) (s s' : State τ) : Prop :=
  ∃ calls, s'.added = s.added ++ calls ∧ Chain closure calls s.storage s'.storage

theorem Recorded.refl (s : State τ) : Recorded closure s s := ⟨[], (List.append_nil _).symm, rfl⟩

theorem Recorded.trans {s s₁ s₂ : State τ} (h : Recorded closure s s₁)
    (h' : Recorded closure s₁ s₂) : Recorded closure s s₂ := by
  obtain ⟨calls, hadded, hchain⟩ := h
  obtain ⟨calls', hadded', hchain'⟩ := h'
  exact ⟨calls ++ calls', by rw [hadded', hadded, List.append_assoc], hchain.append hchain'⟩

/-- The closure of the enrollment command: an addition on an open device, with nobody else at
work on it. -/
def addClosure {ι : Type} (caller : ι) (codec : Luks.Codec) (handle : Luks.Luks2) (slot : UInt8)
    (old : Bytes) (prepared : Prepared) (device : Luks.Device ι) (answer : Except Luks.Error Int)
    (device' : Luks.Device ι) : Prop :=
  Fallible.Runs (Luks.responds caller) Eq
    (Luks.addEnrollment codec handle slot old prepared.credential prepared.envelope)
    device answer device'

section Storage

variable {ι : Type} [DecidableEq ι] {caller : ι} {codec : Luks.Codec} {handle : Luks.Luks2}
  {slot : UInt8} {old : Bytes} {prepared : Prepared} {device device' : Luks.Device ι}

end Storage

theorem stands_start {path : Bytes} {s : State τ} (h : s.added = []) :
    ∃ storage, Stands (fun files => files path = s.files path) [] storage s :=
  ⟨_, rfl, h, rfl⟩

/-- Files that never fail without a reason. -/
def steadyFiles : FileOp → Files → Except Luks.IoError Unit × Files
  | .create path createNew, files =>
    if path = [] ∨ createNew = true ∧ files path ≠ none then (.error ⟨none⟩, files)
    else (.ok (), Function.update files path (some .empty))
  | .apply path edit, files =>
    match files path with
    | some file => (.ok (), Function.update files path (some (edit.complete file)))
    | none => (.error ⟨none⟩, files)

/-- Steady files are one behaviour of files. -/
theorem steadyFiles_responds (op : FileOp) (files : Files) :
    op.Responds files (steadyFiles op files).1 (steadyFiles op files).2 := by
  cases op with
  | create path createNew =>
    by_cases hexists : path = [] ∨ createNew = true ∧ files path ≠ none
    · simp only [steadyFiles, if_pos hexists]
      exact .inr ⟨rfl, _, rfl⟩
    · simp only [steadyFiles, if_neg hexists]
      exact .inl ⟨fun hnil => hexists (.inl hnil),
        fun hnew => not_not.mp fun hne => hexists (.inr ⟨hnew, hne⟩), rfl⟩
  | apply path edit =>
    cases hfile : files path with
    | none =>
      simp only [steadyFiles, hfile]
      exact .inr ⟨hfile, rfl, _, rfl⟩
    | some file =>
      simp only [steadyFiles, hfile]
      refine .inl ⟨file, edit.complete file, hfile, ?_, fun _ => rfl, rfl⟩
      cases edit with
      | write bytes => exact ⟨bytes, List.prefix_refl _, rfl⟩
      | syncFile => exact ⟨file.written, rfl, rfl⟩
      | syncDirectory => exact ⟨true, fun _ => rfl, rfl⟩

/-- Such files and a device whose library fails only when it must. -/
def steady {codec : Luks.Codec} (library : Luks.Library codec) (handle : Luks.Luks2)
    (slot : UInt8) (old : Bytes) :
    (op : Op) → State (Luks.Device Unit) → Ans op × State (Luks.Device Unit)
  | .file op, s => ((steadyFiles op s.files).1, { s with files := (steadyFiles op s.files).2 })
  | .observe change, s => ((), { s with operation := change s.operation })
  | .add prepared, s =>
    let ran := Program.runWith library.answer
      (Luks.addEnrollment codec handle slot old prepared.credential prepared.envelope) s.storage
    (ran.1, { s with storage := ran.2, added := s.added ++ [⟨s.files, prepared, ran.1⟩] })

theorem steady_responds {codec : Luks.Codec} (library : Luks.Library codec)
    {handle : Luks.Luks2} {slot : UInt8} {old : Bytes} (op : Op) (s : State (Luks.Device Unit)) :
    responds (addClosure () codec handle slot old) op s (steady library handle slot old op s).1
      (steady library handle slot old op s).2 := by
  cases op with
  | file op => exact ⟨_, steadyFiles_responds op s.files, rfl⟩
  | observe change => rfl
  | add prepared =>
    exact ⟨_, Program.runs_runWith (fun op s => ⟨s, rfl, library.answer_responds op s⟩) _
      s.storage, rfl⟩

/-- An enrollment beside a recovery slot in which nothing fails. -/
def pairJournal : Enrollment where
  descriptor := Envelope.pairDescriptor
  prepared := ⟨[7], Vector.replicate 32 5⟩
  preflight := .ok ()
  prepare := .ok ()
  recovered := .ok (Vector.replicate 32 5)
  printed := true

/-- The state before an enrollment: no files and a device with a recovery slot. -/
def pairStart : State (Luks.Device Unit) where
  files _ := none
  operation := Operation.new "enroll"
  storage := ⟨Luks.recoveryDisk, none, []⟩
  added := []

/-- The handle of the example's volume. -/
def pairHandle : Luks.Luks2 := ⟨Luks.recoveryDisk, Luks.recoveryDisk.uuid, true⟩

/-- The enrollment succeeds and reports that the storage was committed. -/
theorem pairJournal_enrolls : ∃ s' : State (Luks.Device Unit),
    Fallible.Runs (responds (addClosure () Luks.serde pairHandle 1 [1])) Eq
      (enroll Crypto.transparent (ascii "journal") pairJournal) pairStart (.ok ()) s' ∧
    s'.operation.reported = some "committed" ∧ s'.operation.concluded = some "success" := by
  have hruns : Fallible.Runs (responds (addClosure () Luks.serde pairHandle 1 [1])) Eq
      (enroll Crypto.transparent (ascii "journal") pairJournal) pairStart _ _ :=
    Program.runs_runWith (fun op s => ⟨s, rfl, steady_responds (Luks.compact 16384) op s⟩) _ _
  have hresult : (Program.runWith (steady (Luks.compact 16384) pairHandle 1 [1])
      (enroll Crypto.transparent (ascii "journal") pairJournal) pairStart).1 = .ok () := by
    decide +kernel
  rw [hresult] at hruns
  exact ⟨_, hruns, by decide +kernel, by decide +kernel⟩

end Leelo.Cli
