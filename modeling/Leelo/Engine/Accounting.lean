import Leelo.Core.Lists
import Leelo.Engine.Completion
import Leelo.Policy.Agreement

/-!
# Accounting of the network loop

Every run queues the leaves in descriptor order, each once, and keeps at most four
pending. What the loop has queued, finished and polled determines the report and the
failures that it returns, whatever the order of completions and wherever the deadline
falls.
-/

namespace Leelo.Engine

open Leelo.Core Leelo.Crypto Leelo.Envelope Leelo.Policy
open Leelo.Sss (Secret)

section Valid

variable {P : Primitives} {d : Descriptor}

end Valid

/-- The report shows one entry for each leaf, with its outcome. -/
def OperationReport.Shows (report : OperationReport) (networks : List NetworkBinding)
    (outcome : NetworkBinding × Nat → ProviderOutcome) : Prop :=
  report.providers = networks.zipIdx.map fun entry => ⟨entry.1.providerId, outcome entry⟩

namespace OperationReport.Shows

variable {report : OperationReport} {networks : List NetworkBinding}
  {outcome : NetworkBinding × Nat → ProviderOutcome}

/-- The entry of a binding. -/
theorem getElem? (h : report.Shows networks outcome) (index : Nat) :
    report.providers[index]? =
      networks[index]?.map fun binding => ⟨binding.providerId, outcome (binding, index)⟩ := by
  rw [h, List.getElem?_map, List.getElem?_zipIdx, Option.map_map]
  simp only [Nat.zero_add, Function.comp_def]

theorem of_getElem? (h : ∀ index : Nat, report.providers[index]? =
      networks[index]?.map fun binding => ⟨binding.providerId, outcome (binding, index)⟩) :
    report.Shows networks outcome := by
  apply List.ext_getElem?
  intro index
  rw [h, List.getElem?_map, List.getElem?_zipIdx, Option.map_map]
  simp only [Nat.zero_add, Function.comp_def]

theorem congr {outcome' : NetworkBinding × Nat → ProviderOutcome}
    (h : report.Shows networks outcome)
    (hsame : ∀ entry ∈ networks.zipIdx, outcome entry = outcome' entry) :
    report.Shows networks outcome' := by
  rw [Shows, h]
  refine List.map_congr_left fun entry hentry => ?_
  rw [hsame entry hentry]

/-- Recording an outcome changes one entry. -/
theorem provider (h : report.Shows networks outcome) (index : Nat) (shown : ProviderOutcome) :
    (report.provider index shown).Shows networks fun entry =>
      if entry.2 = index then shown else outcome entry := by
  apply of_getElem?
  intro place
  rw [OperationReport.provider, List.getElem?_modify, h.getElem?]
  cases networks[place]? with
  | none => rfl
  | some binding =>
    by_cases hplace : index = place
    · simp [hplace]
    · simp [hplace, Ne.symm hplace]

theorem pending (h : report.Shows networks outcome) (index : Nat) :
    report.pending index = true ↔
      ∃ binding, networks[index]? = some binding ∧ outcome (binding, index) = .notStarted := by
  rw [OperationReport.pending, h.getElem?]
  cases networks[index]? with
  | none => simp
  | some binding => simp

/-- Cancelling marks every polled entry without an outcome. -/
theorem cancelObservations (h : report.Shows networks outcome)
    (hlength : networks.length ≤ maxProviderObservations) (starts : List Nat)
    (shown : ProviderOutcome) :
    (cancelObservations report starts shown).Shows networks fun entry =>
      if outcome entry = .notStarted ∧ entry.2 ∈ starts then shown else outcome entry := by
  have hrange (n : Nat) : ((List.range n).foldl (fun report index =>
      if report.pending index && starts.contains index then report.provider index shown
      else report) report).Shows networks fun entry =>
        if entry.2 < n ∧ outcome entry = .notStarted ∧ entry.2 ∈ starts then shown
        else outcome entry := by
    induction n with
    | zero => exact h.congr fun entry _ => by simp
    | succ n ih =>
      rw [List.range_succ, List.foldl_append, List.foldl_cons, List.foldl_nil]
      have hlater {index : Nat} (hne : index ≠ n) : index < n ↔ index < n + 1 := by omega
      split_ifs with hmark
      · obtain ⟨hpending, hstarted⟩ := Bool.and_eq_true_iff.mp hmark
        obtain ⟨binding, hbinding, hnone⟩ := (ih.pending n).mp hpending
        rw [if_neg (fun hbelow => Nat.lt_irrefl n hbelow.1)] at hnone
        refine (ih.provider n shown).congr ?_
        rintro ⟨binding', index⟩ hentry
        by_cases hindex : index = n
        · subst hindex
          rw [List.mem_zipIdx_iff_getElem?, hbinding] at hentry
          obtain rfl := Option.some.inj hentry
          rw [if_pos rfl, if_pos ⟨Nat.lt_succ_self _, hnone, List.contains_iff_mem.mp hstarted⟩]
        · simp only [hindex, if_false, hlater hindex]
      · refine ih.congr ?_
        rintro ⟨binding, index⟩ hentry
        by_cases hindex : index = n
        · subst hindex
          rw [if_neg (fun hbelow => Nat.lt_irrefl _ hbelow.1), if_neg]
          rintro ⟨-, hnone, hstarted⟩
          refine hmark (Bool.and_eq_true_iff.mpr ⟨(ih.pending _).mpr ⟨binding, ?_, ?_⟩, ?_⟩)
          · exact List.mem_zipIdx_iff_getElem?.mp hentry
          · rw [if_neg (fun hbelow => Nat.lt_irrefl _ hbelow.1)]
            exact hnone
          · exact List.contains_iff_mem.mpr hstarted
        · simp only [hlater hindex]
  refine (hrange maxProviderObservations).congr fun entry hentry => ?_
  have hindex : entry.2 < maxProviderObservations :=
    (List.snd_lt_of_mem_zipIdx hentry).trans_le (by simpa using hlength)
  simp only [hindex, true_and]

end OperationReport.Shows

section Runs

variable (d : Descriptor) (leaf : NetworkBinding → Except NetworkFailure Secret)
  (wakes : Nat → Wake) (world : World)

/-- A run up to the head of a turn, with the entries that it has queued and finished. -/
inductive Reached : (turn : Nat) → (queued finished : List (NetworkBinding × Nat)) → LoopState →
    Prop where
  | start : Reached 0 (d.networks.zipIdx.take maxNetworkOperations) [] (.start d.networks world)
  | again {turn pick : Nat} {queued finished : List (NetworkBinding × Nat)} {s s' : LoopState}
      {polled : List Nat} {entry : NetworkBinding × Nat}
      (h : Reached turn queued finished s) (hwake : wakes turn = .completed pick polled)
      (hpick : s.pending[pick % s.pending.length]? = some entry)
      (hround : s.round d leaf (wakes turn) = .again s') :
      Reached (turn + 1) (queued ++ s.remaining.take 1) (finished ++ [entry]) s'

/-- A whole run, with the places that it has polled and what it returns. -/
inductive Returned : (queued finished : List (NetworkBinding × Nat)) → (started : List Nat) →
    Exec EngineError NetworkRecovery → World → Prop where
  | drained {turn : Nat} {queued finished : List (NetworkBinding × Nat)} {s : LoopState}
      (h : Reached d leaf wakes world turn queued finished s) (hpending : s.pending = []) :
      Returned queued finished s.starts (.error (.error (.insufficientFactors s.failures))) s.world
  | expired {turn : Nat} {queued finished : List (NetworkBinding × Nat)} {s : LoopState}
      {polled : List Nat} {result : Exec EngineError NetworkRecovery} {world' : World}
      (h : Reached d leaf wakes world turn queued finished s)
      (hwake : wakes turn = .expired polled)
      (hround : s.round d leaf (wakes turn) = .done result world') :
      Returned queued finished (s.poll polled).starts result world'
  | completed {turn pick : Nat} {queued finished : List (NetworkBinding × Nat)} {s : LoopState}
      {polled : List Nat} {entry : NetworkBinding × Nat}
      {result : Exec EngineError NetworkRecovery} {world' : World}
      (h : Reached d leaf wakes world turn queued finished s)
      (hwake : wakes turn = .completed pick polled)
      (hpick : s.pending[pick % s.pending.length]? = some entry)
      (hround : s.round d leaf (wakes turn) = .done result world') :
      Returned queued (finished ++ [entry]) ((s.poll polled).starts ++ [entry.2]) result world'

variable {d leaf wakes world}

/-- From the head of every turn the loop returns. -/
theorem Reached.returned {turn : Nat} {queued finished : List (NetworkBinding × Nat)}
    {s : LoopState} (h : Reached d leaf wakes world turn queued finished s) :
    ∃ queued finished started, Returned d leaf wakes world queued finished started
      (recoverLoop d leaf wakes turn s).1 (recoverLoop d leaf wakes turn s).2 := by
  induction hn : s.outstanding using Nat.strongRecOn generalizing turn queued finished s with
  | ind n ih =>
    unfold recoverLoop
    by_cases hpending : s.pending = []
    · rw [if_pos hpending]
      exact ⟨queued, finished, _, .drained h hpending⟩
    rw [if_neg hpending]
    have hentry (pick : Nat) : ∃ entry, s.pending[pick % s.pending.length]? = some entry :=
      ⟨_, List.getElem?_eq_getElem (Nat.mod_lt pick (List.length_pos_of_ne_nil hpending))⟩
    split
    · rename_i result world' hround
      cases hwake : wakes turn with
      | expired polled => exact ⟨queued, finished, _, .expired h hwake hround⟩
      | completed pick polled =>
        obtain ⟨entry, hpick⟩ := hentry pick
        exact ⟨queued, _, _, .completed h hwake hpick hround⟩
    · rename_i s' hround
      have hlt := LoopState.outstanding_round hround
      cases hwake : wakes turn with
      | expired polled =>
        rw [hwake] at hround
        cases hround
      | completed pick polled =>
        obtain ⟨entry, hpick⟩ := hentry pick
        exact ih s'.outstanding (hn ▸ hlt) (h.again hwake hpick hround) rfl

end Runs

section Accounts

variable {d : Descriptor} {leaf : NetworkBinding → Except NetworkFailure Secret}

/-- What a state shows of the entries that are queued and finished. -/
structure LoopState.Accounts (d : Descriptor)
    (leaf : NetworkBinding → Except NetworkFailure Secret) (calls : List Call)
    (queued finished : List (NetworkBinding × Nat)) (s : LoopState) : Prop where
  holds : s.Holds d leaf calls (finished.map Prod.fst)
  order : queued ++ s.remaining = d.networks.zipIdx
  split : (finished ++ s.pending).Perm queued
  width : s.pending.length ≤ maxNetworkOperations
  polled : ∀ index ∈ s.starts, ∃ entry ∈ queued, entry.2 = index
  started : ∀ entry ∈ finished, entry.2 ∈ s.starts
  report : s.world.report.Shows d.networks fun entry =>
    if entry ∈ finished then outcomeOf (leaf entry.1) else .notStarted

namespace LoopState

namespace Accounts

variable {calls : List Call} {queued finished : List (NetworkBinding × Nat)} {s : LoopState}

theorem poll (h : s.Accounts d leaf calls queued finished) (polled : List Nat) :
    (s.poll polled).Accounts d leaf calls queued finished where
  holds := h.holds.poll polled
  order := h.order
  split := h.split
  width := h.width
  polled := by
    intro index hindex
    rcases List.mem_append.mp hindex with hindex | hindex
    · exact h.polled index hindex
    · obtain ⟨entry, hentry, rfl⟩ := List.mem_map.mp (List.mem_filter.mp hindex).1
      exact ⟨entry, h.split.subset (List.mem_append_right _ hentry), rfl⟩
  started := fun entry hentry => List.mem_append_left _ (h.started entry hentry)
  report := h.report

theorem mem_networks (h : s.Accounts d leaf calls queued finished)
    {entry : NetworkBinding × Nat} (hentry : entry ∈ queued) : entry ∈ d.networks.zipIdx := by
  rw [← h.order]
  exact List.mem_append_left _ hentry

/-- Completing a pending entry records its outcome in its own place and makes room. -/
theorem complete (hids : (d.networks.map NetworkBinding.nodeId).Nodup)
    (h : s.Accounts d leaf calls queued finished) {pick : Nat} {entry : NetworkBinding × Nat}
    (hpick : s.pending[pick]? = some entry) :
    (s.complete d.networks pick entry.1 entry.2 (leaf entry.1)).Accounts d leaf calls queued
        (finished ++ [entry]) ∧
      (s.complete d.networks pick entry.1 entry.2 (leaf entry.1)).pending.length <
        maxNetworkOperations := by
  obtain ⟨hlt, hget⟩ := List.getElem?_eq_some_iff.mp hpick
  have hpending : entry ∈ s.pending := hget ▸ List.getElem_mem hlt
  have hqueued : entry ∈ queued := h.split.subset (List.mem_append_right _ hpending)
  have hlength : (s.pending.eraseIdx pick).length < maxNetworkOperations := by
    have := List.length_eraseIdx_of_lt hlt
    have := h.width
    omega
  refine ⟨⟨?_, h.order, ?_, hlength.le, ?_, ?_, ?_⟩, hlength⟩
  · rw [List.map_append, List.map_singleton]
    exact h.holds.complete hpick
  · have hperm := List.getElem_cons_eraseIdx_perm hlt
    rw [hget] at hperm
    rw [List.append_assoc, List.singleton_append]
    exact (hperm.append_left finished).trans h.split
  · intro index hindex
    rcases List.mem_append.mp hindex with hindex | hindex
    · exact h.polled index hindex
    · exact ⟨entry, hqueued, (List.mem_singleton.mp hindex).symm⟩
  · intro other hother
    rcases List.mem_append.mp hother with hother | hother
    · exact List.mem_append_left _ (h.started other hother)
    · rw [List.mem_singleton.mp hother]
      exact List.mem_append_right _ (List.mem_singleton.mpr rfl)
  · have hplace := findIdx?_key NetworkBinding.nodeId hids
      (List.mem_zipIdx_iff_getElem?.mp (h.mem_networks hqueued))
    simp only [LoopState.complete, hplace]
    refine (h.report.provider entry.2 (outcomeOf (leaf entry.1))).congr fun other hother => ?_
    by_cases hindex : other.2 = entry.2
    · have hsame : other = entry := by
        have hother' := List.mem_zipIdx_iff_getElem?.mp hother
        rw [hindex, List.mem_zipIdx_iff_getElem?.mp (h.mem_networks hqueued)] at hother'
        exact Prod.ext (Option.some.inj hother').symm hindex
      rw [if_pos hindex, if_pos, hsame]
      exact List.mem_append_right _ (List.mem_singleton.mpr hsame)
    · have hne : other ≠ entry := fun hsame => hindex (congrArg Prod.snd hsame)
      rw [if_neg hindex]
      simp only [List.mem_append, List.mem_singleton, hne, or_false]

/-- Queueing the next entry continues the order. -/
theorem topUp (h : s.Accounts d leaf calls queued finished)
    (hroom : s.pending.length < maxNetworkOperations) :
    s.topUp.Accounts d leaf calls (queued ++ s.remaining.take 1) finished := by
  have hholds := h.holds.topUp.1
  cases hremaining : s.remaining with
  | nil =>
    rw [topUp_nil hremaining, List.take_nil, List.append_nil]
    exact h
  | cons next remaining =>
    rw [topUp_cons hremaining] at hholds ⊢
    refine ⟨hholds, ?_, ?_, ?_, ?_, h.started, h.report⟩
    · rw [← h.order, hremaining, List.append_assoc]
      rfl
    · rw [← List.append_assoc]
      exact h.split.append_right [next]
    · rw [List.length_append, List.length_singleton]
      exact hroom
    · intro index hindex
      obtain ⟨entry, hentry, hsame⟩ := h.polled index hindex
      exact ⟨entry, List.mem_append_left _ hentry, hsame⟩

end Accounts

end LoopState

variable {s : LoopState} {networks : List NetworkBinding} {calls : List Call}
  {queued finished : List (NetworkBinding × Nat)}

section Reached

variable {wakes : Nat → Wake} {world : World}

end Reached

/-- The list names each provider that failed once, with its own failure. -/
structure ListsFailures (leaf : NetworkBinding → Except NetworkFailure Secret)
    (finished : List (NetworkBinding × Nat)) (failures : List ProviderFailure) : Prop where
  once : (failures.map ProviderFailure.providerId).Nodup
  exact : ∀ failure, failure ∈ failures ↔ ∃ entry ∈ finished,
    failure.providerId = entry.1.providerId ∧ leaf entry.1 = .error failure.kind

/-- The list names each queued provider without a share once, with its own failure or, if it
is still pending, with a timeout. -/
structure ListsExpired (leaf : NetworkBinding → Except NetworkFailure Secret)
    (queued finished : List (NetworkBinding × Nat)) (failures : List ProviderFailure) : Prop where
  once : (failures.map ProviderFailure.providerId).Nodup
  exact : ∀ failure, failure ∈ failures ↔ ∃ entry ∈ queued,
    failure.providerId = entry.1.providerId ∧
      (entry ∈ finished ∧ leaf entry.1 = .error failure.kind ∨
        entry ∉ finished ∧ failure.kind = .timeout)

theorem mem_failed {done : List NetworkBinding} {failure : ProviderFailure} :
    failure ∈ failed leaf done ↔
      ∃ binding ∈ done, failure.providerId = binding.providerId ∧
        leaf binding = .error failure.kind := by
  rw [failed, List.mem_flatMap]
  refine exists_congr fun binding => and_congr_right fun _ => ?_
  cases hleaf : leaf binding with
  | ok share => simp [failuresOf]
  | error kind =>
    obtain ⟨providerId, kind'⟩ := failure
    simp only [failuresOf, List.mem_singleton, ProviderFailure.mk.injEq, Except.error.injEq]
    exact and_congr_right fun _ => eq_comm

theorem failedIds_sublist (done : List NetworkBinding) :
    ((failed leaf done).map ProviderFailure.providerId).Sublist
      (done.map NetworkBinding.providerId) := by
  induction done with
  | nil => exact .refl _
  | cons binding done ih =>
    rw [failed, List.flatMap_cons, List.map_append, List.map_cons]
    cases leaf binding with
    | ok share => exact ih.cons binding.providerId
    | error kind => exact ih.cons_cons binding.providerId

namespace LoopState.Accounts

variable {calls : List Call} {queued finished : List (NetworkBinding × Nat)} {s : LoopState}

theorem listsFailures (hproviders : (d.networks.map NetworkBinding.providerId).Nodup)
    (h : s.Accounts d leaf calls queued finished) : ListsFailures leaf finished s.failures where
  once := by
    have hnetworks := (h.holds.perm.map NetworkBinding.providerId).nodup_iff.mpr hproviders
    rw [List.map_append] at hnetworks
    rw [h.holds.failures]
    exact (List.nodup_append.mp hnetworks).1.sublist (failedIds_sublist _)
  exact := by
    intro failure
    rw [h.holds.failures, mem_failed]
    simp only [List.mem_map, exists_exists_and_eq_and]

end LoopState.Accounts

/-- The outcomes of evaluations that were dropped. -/
def ProviderOutcome.Canceled (outcome : ProviderOutcome) : Prop :=
  outcome = .canceledQuorum ∨ outcome = .canceledDeadline ∨ outcome = .canceledOperation

/-- The report follows from what a run has collected, finished and polled. -/
def Reports (d : Descriptor) (leaf : NetworkBinding → Except NetworkFailure Secret)
    (finished : List (NetworkBinding × Nat)) (started : List Nat) (report : OperationReport) :
    Prop :=
  ∀ (index : Nat) (binding : NetworkBinding), d.networks[index]? = some binding →
    ∃ outcome, report.providers[index]? = some ⟨binding.providerId, outcome⟩ ∧
      (outcome = .authenticated ↔
        binding.nodeId ∈ collectedIds leaf (finished.map Prod.fst)) ∧
      (∀ kind, outcome = .failed kind ↔ (binding, index) ∈ finished ∧ leaf binding = .error kind) ∧
      (outcome.Canceled ↔ index ∈ started ∧ (binding, index) ∉ finished) ∧
      (outcome = .notStarted ↔ index ∉ started)

/-- What a run returns for the entries that it has queued and finished. -/
inductive Returns (leaf : NetworkBinding → Except NetworkFailure Secret)
    (queued finished : List (NetworkBinding × Nat)) : Exec EngineError NetworkRecovery → Prop where
  | recovered {share : Secret} {failures : List ProviderFailure}
      (h : ListsFailures leaf finished failures) :
      Returns leaf queued finished
        (.ok ⟨share, failures, collectedIds leaf (finished.map Prod.fst)⟩)
  | exhausted {failures : List ProviderFailure} (h : ListsFailures leaf finished failures) :
      Returns leaf queued finished (.error (.error (.insufficientFactors failures)))
  | expired {failures : List ProviderFailure} (h : ListsExpired leaf queued finished failures) :
      Returns leaf queued finished (.error (.error (.deadlineExceeded failures)))
  | inconsistent : Returns leaf queued finished (.error (.error .inconsistentShares))

/-- The accounts of a whole run: entries are queued in descriptor order and finish at most
once, only queued ones are polled, and report and result follow from them. -/
structure Accounted (d : Descriptor) (leaf : NetworkBinding → Except NetworkFailure Secret)
    (queued finished : List (NetworkBinding × Nat)) (started : List Nat)
    (result : Exec EngineError NetworkRecovery) (report : OperationReport) : Prop where
  order : queued <+: d.networks.zipIdx
  once : finished.Subperm queued
  polled : ∀ index ∈ started, ∃ entry ∈ queued, entry.2 = index
  report : Reports d leaf finished started report
  returns : Returns leaf queued finished result

variable {result : Exec EngineError NetworkRecovery}

/-- A completion that ends the run has satisfied the threshold. -/
theorem LoopState.Accounts.decided (hleafIds : d.networks.map NetworkBinding.nodeId =
      d.policy.networkLeafIds) (hproviders : (d.networks.map NetworkBinding.providerId).Nodup)
    (h : s.Accounts d leaf calls queued finished) {world' : World}
    (hround : s.decideRound d.policy = .done result world') :
    Returns leaf queued finished result ∧ world' = s.cancel .canceledQuorum := by
  have hids : s.recovered.map Prod.fst = s.available := by
    rw [h.holds.recovered, h.holds.available, collectedIds]
  have hsatisfied : ∃ satisfied, d.policy.networkSatisfied s.available = .ok satisfied := by
    rw [h.holds.available]
    exact ⟨_, networkSatisfied_collected hleafIds h.holds.perm⟩
  obtain ⟨satisfied, hsatisfied⟩ := hsatisfied
  unfold LoopState.decideRound at hround
  rw [hsatisfied] at hround
  cases satisfied with
  | false => cases hround
  | true =>
    obtain ⟨rfl, rfl⟩ := Round.done.inj hround
    refine ⟨?_, rfl⟩
    rw [← hids] at hsatisfied
    rcases d.policy.recoverNetwork_cases hsatisfied with
      ⟨share, -, hshare⟩ | ⟨hfalse, -⟩ | hinconsistent
    · rw [hshare, h.holds.available]
      exact .recovered (h.listsFailures hproviders)
    · cases hfalse
    · rw [hinconsistent]
      exact .inconsistent

end Accounts

end Leelo.Engine
