import Leelo.Engine.Network
import Leelo.Policy.Threshold

/-!
# What the network loop returns

Whatever the wakes are, the leaves that completed are some of the bindings, each at
most once, and everything the loop holds is a function of them in completion order.
The loop returns at the first satisfied threshold, at the deadline, or when every leaf
has completed without satisfying it.
-/

namespace Leelo.Engine

open Leelo.Core Leelo.Envelope Leelo.Policy
open Leelo.Sss (Secret)

section Completed

variable (leaf : NetworkBinding → Except NetworkFailure Secret)

/-- The shares of the leaves that completed, in completion order. -/
def collected (done : List NetworkBinding) : List NetworkShare :=
  done.flatMap fun binding => recoveredOf binding (leaf binding)

/-- The failures of the leaves that completed, in completion order. -/
def failed (done : List NetworkBinding) : List ProviderFailure :=
  done.flatMap fun binding => failuresOf binding (leaf binding)

/-- The log of the leaves that completed. -/
def completions (done : List NetworkBinding) : List Call :=
  done.map fun binding => .completed binding.nodeId (leaf binding).isOk

/-- The identifiers of the leaves that completed with a share. -/
def collectedIds (done : List NetworkBinding) : List UInt8 := (collected leaf done).map Prod.fst

theorem collectedIds_sublist (done : List NetworkBinding) :
    (collectedIds leaf done).Sublist (done.map NetworkBinding.nodeId) := by
  induction done with
  | nil => exact .refl _
  | cons binding done ih =>
    have hids : collectedIds leaf (binding :: done) =
        (recoveredOf binding (leaf binding)).map Prod.fst ++ collectedIds leaf done := by
      simp only [collectedIds, collected, List.flatMap_cons, List.map_append]
    rw [hids, List.map_cons]
    cases leaf binding with
    | ok share => exact ih.cons_cons binding.nodeId
    | error kind => exact ih.cons binding.nodeId

/-- The shares collected are those of the leaves that succeeded. -/
theorem mem_collected {done : List NetworkBinding} {id : UInt8} {share : Secret} :
    (id, share) ∈ collected leaf done ↔
      ∃ binding ∈ done, binding.nodeId = id ∧ leaf binding = .ok share := by
  rw [collected, List.mem_flatMap]
  constructor
  · rintro ⟨binding, hbinding, hmem⟩
    cases hleaf : leaf binding with
    | error kind =>
      rw [hleaf] at hmem
      exact absurd hmem List.not_mem_nil
    | ok value =>
      rw [hleaf] at hmem
      obtain ⟨rfl, rfl⟩ := Prod.mk.inj (List.mem_singleton.mp hmem)
      exact ⟨binding, hbinding, rfl, hleaf⟩
  · rintro ⟨binding, hbinding, rfl, hleaf⟩
    refine ⟨binding, hbinding, ?_⟩
    rw [hleaf]
    exact List.mem_singleton.mpr rfl

/-- The log shows exactly the collected leaves as authenticated. -/
theorem mem_collectedIds {done : List NetworkBinding} {id : UInt8} :
    id ∈ collectedIds leaf done ↔ .completed id true ∈ completions leaf done := by
  rw [collectedIds, List.mem_map, completions, List.mem_map]
  constructor
  · rintro ⟨⟨_, share⟩, hmem, rfl⟩
    obtain ⟨binding, hbinding, rfl, hleaf⟩ := (mem_collected leaf).mp hmem
    exact ⟨binding, hbinding, by rw [hleaf]; rfl⟩
  · rintro ⟨binding, hbinding, hcall⟩
    obtain ⟨rfl, hok⟩ := Call.completed.inj hcall
    cases hleaf : leaf binding with
    | error kind =>
      rw [hleaf] at hok
      cases hok
    | ok share => exact ⟨(binding.nodeId, share), (mem_collected leaf).mpr
        ⟨binding, hbinding, rfl, hleaf⟩, rfl⟩

theorem unseal_not_mem_completions (done : List NetworkBinding) :
    .unseal ∉ completions leaf done := by
  rw [completions, List.mem_map]
  rintro ⟨binding, -, hcall⟩
  cases hcall

/-- The threshold of the policy over the collected leaves. -/
def Quorum (d : Descriptor) (done : List NetworkBinding) : Prop :=
  d.policy.network.satisfied (fun id => decide (id ∈ collectedIds leaf done)) = true

/-- What a loop over `wakes` can return once `done` completed and `rest` did not. -/
inductive LoopOutcome (d : Descriptor) (wakes : Nat → Wake) (done rest : List NetworkBinding) :
    Exec EngineError NetworkRecovery → Prop where
  | expired (turn : Nat) (polled : List Nat) (h : wakes turn = .expired polled)
      (failures : List ProviderFailure) :
      LoopOutcome d wakes done rest (.error (.error (.deadlineExceeded failures)))
  | quorum (h : Quorum leaf d done) :
      LoopOutcome d wakes done rest
        ((Exec.mapError policyError (d.policy.recoverNetwork (collected leaf done))).map
          fun share => ⟨share, failed leaf done, collectedIds leaf done⟩)
  | exhausted (h : ¬Quorum leaf d done) (hrest : rest = []) :
      LoopOutcome d wakes done rest (.error (.error (.insufficientFactors (failed leaf done))))

end Completed

section Loop

variable {d : Descriptor} {leaf : NetworkBinding → Except NetworkFailure Secret}

/-- What the state holds when `done` completed and `calls` were made before the loop. -/
structure LoopState.Holds (d : Descriptor) (leaf : NetworkBinding → Except NetworkFailure Secret)
    (calls : List Call) (done : List NetworkBinding) (s : LoopState) : Prop where
  perm : (done ++ (s.pending.map Prod.fst ++ s.remaining.map Prod.fst)).Perm d.networks
  recovered : s.recovered = collected leaf done
  available : s.available = collectedIds leaf done
  failures : s.failures = failed leaf done
  calls : s.world.calls = calls ++ completions leaf done

/-- Between two rounds the threshold fails, and nothing waits while nothing is pending. -/
structure LoopState.Tracks (d : Descriptor) (leaf : NetworkBinding → Except NetworkFailure Secret)
    (calls : List Call) (done : List NetworkBinding) (s : LoopState) : Prop
    extends s.Holds d leaf calls done where
  refilled : s.pending = [] → s.remaining = []
  undecided : ¬Quorum leaf d done

variable {done : List NetworkBinding} {calls : List Call} {s : LoopState}

/-- The collected leaves are distinct leaves of the policy. -/
theorem collectedIds_subperm (leaf : NetworkBinding → Except NetworkFailure Secret)
    (hids : d.networks.map NetworkBinding.nodeId = d.policy.networkLeafIds)
    {rest : List NetworkBinding} (hperm : (done ++ rest).Perm d.networks) :
    (collectedIds leaf done).Subperm d.policy.networkLeafIds := by
  have hmap := hperm.map NetworkBinding.nodeId
  rw [List.map_append, hids] at hmap
  have hdone := List.sublist_append_left (done.map NetworkBinding.nodeId)
    (rest.map NetworkBinding.nodeId)
  exact (collectedIds_sublist leaf done).subperm.trans (hdone.subperm.trans hmap.subperm)

theorem networkSatisfied_collected (hids : d.networks.map NetworkBinding.nodeId =
      d.policy.networkLeafIds) {rest : List NetworkBinding}
    (hperm : (done ++ rest).Perm d.networks) :
    d.policy.networkSatisfied (collectedIds leaf done) =
      .ok (d.policy.network.satisfied fun id => decide (id ∈ collectedIds leaf done)) := by
  have hsub := collectedIds_subperm leaf hids hperm
  apply (d.policy.networkSatisfied_eq_ok).mpr
  exact ⟨fun id hid => hsub.subset hid, d.policy.nodup_of_subperm hsub, rfl⟩

/-- The loop starts with every binding to be tried. -/
theorem LoopState.tracks_start (world : World) :
    (LoopState.start d.networks world).Tracks d leaf world.calls [] where
  perm := by
    simp only [start, List.nil_append, ← List.map_append, List.take_append_drop]
    rw [List.zipIdx_map_fst]
  refilled := by
    intro h
    simp only [start, List.take_eq_nil_iff, List.drop_eq_nil_iff, maxNetworkOperations] at h ⊢
    rcases h with h | h
    · cases h
    · rw [h]
      exact Nat.zero_le 4
  recovered := rfl
  available := rfl
  failures := rfl
  calls := by simp [start, completions]
  undecided := by
    have hnone : (fun id : UInt8 => decide (id ∈ collectedIds leaf [])) = fun _ => false := by
      funext id
      exact decide_eq_false List.not_mem_nil
    rw [Quorum, hnone, NetworkNode.satisfied_none d.policy.wellFormed.thresholds]
    exact Bool.false_ne_true

/-- Completing a pending leaf appends it to those that are done. -/
theorem LoopState.Holds.complete (h : s.Holds d leaf calls done) {pick : Nat}
    {binding : NetworkBinding} {index : Nat} (hpick : s.pending[pick]? = some (binding, index)) :
    (s.complete d.networks pick binding index (leaf binding)).Holds d leaf calls
      (done ++ [binding]) where
  perm := by
    obtain ⟨hlt, hget⟩ := List.getElem?_eq_some_iff.mp hpick
    have hpending := (List.getElem_cons_eraseIdx_perm hlt).map Prod.fst
    rw [hget, List.map_cons] at hpending
    rw [List.append_assoc, List.singleton_append, ← List.cons_append]
    exact ((hpending.append_right _).append_left done).trans h.perm
  recovered := by
    simp only [LoopState.complete, h.recovered, collected, List.flatMap_append,
      List.flatMap_singleton]
  available := by
    simp only [LoopState.complete, h.available, collectedIds, collected, List.flatMap_append,
      List.flatMap_singleton, List.map_append]
  failures := by
    simp only [LoopState.complete, h.failures, failed, List.flatMap_append,
      List.flatMap_singleton]
  calls := by
    simp only [LoopState.complete, h.calls, completions, List.map_append, List.map_singleton,
      List.append_assoc]

/-- A poll keeps what holds. -/
theorem LoopState.Holds.poll (h : s.Holds d leaf calls done) (polled : List Nat) :
    (s.poll polled).Holds d leaf calls done :=
  ⟨h.perm, h.recovered, h.available, h.failures, h.calls⟩

/-- Queueing the next leaf moves it and keeps everything else. -/
theorem LoopState.Holds.topUp (h : s.Holds d leaf calls done) :
    s.topUp.Holds d leaf calls done ∧ (s.topUp.pending = [] → s.topUp.remaining = []) := by
  cases hremaining : s.remaining with
  | nil =>
    rw [LoopState.topUp_nil hremaining]
    exact ⟨h, fun _ => hremaining⟩
  | cons next remaining =>
    rw [LoopState.topUp_cons hremaining]
    refine ⟨⟨?_, h.recovered, h.available, h.failures, h.calls⟩, fun hnil => ?_⟩
    · have hperm := h.perm
      rw [hremaining, List.map_cons] at hperm
      simpa only [List.map_append, List.map_singleton, List.append_assoc,
        List.singleton_append] using hperm
    · exact absurd hnil (by simp)

section Bound

variable (hids : d.networks.map NetworkBinding.nodeId = d.policy.networkLeafIds)

include hids

/-- A round that goes on completed one more leaf. -/
theorem LoopState.Tracks.again {wake : Wake} {s' : LoopState} (h : s.Tracks d leaf calls done)
    (hround : s.round d leaf wake = .again s') :
    ∃ binding, s'.Tracks d leaf calls (done ++ [binding]) := by
  obtain ⟨polled, pick, binding, index, hpick, hfalse, rfl⟩ := LoopState.round_eq_again hround
  have hcomplete := (h.toHolds.poll polled).complete hpick
  obtain ⟨htopUp, hrefilled⟩ := hcomplete.topUp
  refine ⟨binding, { htopUp with refilled := hrefilled, undecided := ?_ }⟩
  rw [hcomplete.available, networkSatisfied_collected hids hcomplete.perm] at hfalse
  rw [Quorum, Except.ok.inj hfalse]
  exact Bool.false_ne_true

/-- A round that returns does so with one of the outcomes. -/
theorem LoopState.Tracks.returns {wakes : Nat → Wake} {turn : Nat}
    (h : s.Tracks d leaf calls done) (hpending : s.pending ≠ [])
    {result : Exec EngineError NetworkRecovery} {world : World}
    (hround : s.round d leaf (wakes turn) = .done result world) :
    ∃ done rest, (done ++ rest).Perm d.networks ∧
      world.calls = calls ++ completions leaf done ∧ LoopOutcome leaf d wakes done rest result := by
  unfold LoopState.round at hround
  cases hwake : wakes turn with
  | expired polled =>
    rw [hwake] at hround
    obtain ⟨rfl, rfl⟩ := Round.done.inj hround
    refine ⟨done, _, h.perm, ?_, .expired turn polled hwake _⟩
    rw [LoopState.calls_cancel]
    exact h.calls
  | completed pick polled =>
    rw [hwake] at hround
    dsimp only at hround
    have hlt : pick % (s.poll polled).pending.length < (s.poll polled).pending.length :=
      Nat.mod_lt _ (List.length_pos_of_ne_nil hpending)
    rw [List.getElem?_eq_getElem hlt] at hround
    generalize hentry : (s.poll polled).pending[pick % (s.poll polled).pending.length] = entry
      at hround
    obtain ⟨binding, index⟩ := entry
    have hcomplete := (h.toHolds.poll polled).complete
      (List.getElem?_eq_some_iff.mpr ⟨hlt, hentry⟩)
    dsimp only at hround
    unfold LoopState.decideRound at hround
    rw [hcomplete.available, networkSatisfied_collected hids hcomplete.perm] at hround
    by_cases hquorum : Quorum leaf d (done ++ [binding])
    · rw [Quorum] at hquorum
      rw [hquorum] at hround
      obtain ⟨rfl, rfl⟩ := Round.done.inj hround
      rw [hcomplete.recovered, hcomplete.failures, LoopState.calls_cancel]
      exact ⟨_, _, hcomplete.perm, hcomplete.calls, .quorum hquorum⟩
    · rw [Quorum, Bool.not_eq_true] at hquorum
      rw [hquorum] at hround
      cases hround

/-- Every run of the loop ends with one of the outcomes. -/
theorem recoverLoop_outcome (wakes : Nat → Wake) :
    ∀ (turn : Nat) (s : LoopState) (done : List NetworkBinding), s.Tracks d leaf calls done →
      ∃ done rest, (done ++ rest).Perm d.networks ∧
        (recoverLoop d leaf wakes turn s).2.calls = calls ++ completions leaf done ∧
        LoopOutcome leaf d wakes done rest (recoverLoop d leaf wakes turn s).1 := by
  intro turn s
  -- The measure of the loop is the number of leaves without a result.
  induction hn : s.outstanding using Nat.strongRecOn generalizing turn s with
  | ind n ih =>
    intro done h
    unfold recoverLoop
    by_cases hpending : s.pending = []
    · rw [if_pos hpending, h.failures]
      refine ⟨done, [], ?_, h.calls, .exhausted h.undecided rfl⟩
      have hperm := h.perm
      rwa [hpending, h.refilled hpending] at hperm
    · rw [if_neg hpending]
      split
      · rename_i result world hround
        exact h.returns hids hpending hround
      · rename_i s' hround
        obtain ⟨binding, hnext⟩ := h.again hids hround
        have hlt := LoopState.outstanding_round hround
        exact ih s'.outstanding (hn ▸ hlt) (turn + 1) s' rfl (done ++ [binding]) hnext

/-- The loop succeeds only with a quorum whose collected shares recover a value. -/
theorem recoverNetworkObserved_eq_ok {wakes : Nat → Wake} {w w' : World}
    {network : NetworkRecovery} (h : recoverNetworkObserved d leaf wakes w = (.ok network, w')) :
    ∃ done rest, (done ++ rest).Perm d.networks ∧
      w'.calls = w.calls ++ completions leaf done ∧ Quorum leaf d done ∧
      d.policy.recoverNetwork (collected leaf done) = .ok network.share ∧
      network.available = collectedIds leaf done := by
  obtain ⟨done, rest, hperm, hcalls, houtcome⟩ :=
    recoverLoop_outcome hids wakes 0 _ [] (LoopState.tracks_start w)
  unfold recoverNetworkObserved at h
  rw [h] at hcalls houtcome
  refine ⟨done, rest, hperm, hcalls, ?_⟩
  generalize hresult : (Except.ok network : Exec EngineError NetworkRecovery) = result
    at houtcome
  cases houtcome with
  | expired turn polled hwake failures => cases hresult
  | exhausted hquorum hrest => cases hresult
  | quorum hquorum =>
    cases hshare : d.policy.recoverNetwork (collected leaf done) with
    | error halt =>
      rw [hshare] at hresult
      cases halt <;> cases hresult
    | ok share =>
      rw [hshare] at hresult
      obtain rfl := Except.ok.inj hresult
      exact ⟨hquorum, rfl, rfl⟩

end Bound

end Loop

end Leelo.Engine
