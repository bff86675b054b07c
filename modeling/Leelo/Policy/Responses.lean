import Leelo.Policy.Admission

/-!
# Recording network responses

Responses are marked at leaf positions. For a plan with distinct leaf
identifiers the marks after any accepted sequence are the membership vector of
its identifiers, so an unknown or repeated identifier is exactly what the loop
rejects and the evaluated plan is the threshold semantics of the identifier set.
-/

namespace Leelo.Policy

open Leelo.Core

/-- The position of the first leaf with an identifier. -/
def NetworkPlan.leafPosition (plan : NetworkPlan) (id : UInt8) : Option Nat :=
  plan.leaves.findIdx? fun leaf => leaf.1 == id

/-- One round of the response loop. -/
def NetworkPlan.respond (plan : NetworkPlan) (responses : List Bool) (id : UInt8) :
    Except PolicyError (List Bool) :=
  match plan.leafPosition id with
  | none => .error (.unknownNetworkLeaf id)
  | some index =>
    match recordResponse responses index with
    | (false, _) => .error (.duplicateResponse id)
    | (true, responses) => .ok responses

/-- Mark every available leaf; refuse unknown and repeated identifiers. -/
def NetworkPlan.responses (plan : NetworkPlan) (available : List UInt8) :
    Except PolicyError (List Bool) :=
  available.foldlM plan.respond (List.replicate plan.leaves.length false)

/-- The network threshold without a TPM observation. -/
def ProductionPolicy.networkSatisfied (policy : ProductionPolicy) (available : List UInt8) :
    Except PolicyError Bool := do
  let responses ← policy.plan.responses available
  return evaluateNetwork policy.plan.gates responses

/-- The membership vector of a set of identifiers at the leaf positions. -/
def NetworkPlan.marks (plan : NetworkPlan) (ids : List UInt8) : List Bool :=
  plan.leaves.map fun leaf => decide (leaf.1 ∈ ids)

namespace NetworkPlan

variable {plan : NetworkPlan}

theorem marks_nil : plan.marks [] = List.replicate plan.leaves.length false := by
  simp [marks]

theorem leafPosition_eq_none {id : UInt8} :
    plan.leafPosition id = none ↔ id ∉ plan.leaves.map Prod.fst := by
  simp only [leafPosition, List.findIdx?_eq_none_iff, beq_eq_false_iff_ne, List.mem_map,
    not_exists, not_and]

/-- A known identifier is found at its only position. -/
theorem leafPosition_eq_some {id : UInt8} {index : Nat} (h : plan.leafPosition id = some index) :
    ∃ providerId, plan.leaves[index]? = some (id, providerId) := by
  obtain ⟨hlt, hid, -⟩ := List.findIdx?_eq_some_iff_getElem.mp h
  refine ⟨plan.leaves[index].2, ?_⟩
  rw [List.getElem?_eq_getElem hlt, ← beq_iff_eq.mp hid]

theorem getElem?_marks (ids : List UInt8) (k : Nat) :
    (plan.marks ids)[k]? = plan.leaves[k]?.map fun leaf => decide (leaf.1 ∈ ids) := by
  rw [marks, List.getElem?_map]

variable (hnodup : (plan.leaves.map Prod.fst).Nodup)

include hnodup

/-- Setting the mark of a known leaf adds its identifier. -/
theorem marks_set {id : UInt8} {index : Nat} (h : plan.leafPosition id = some index)
    (ids : List UInt8) :
    (plan.marks ids).set index true = plan.marks (ids ++ [id]) := by
  obtain ⟨providerId, hleaf⟩ := leafPosition_eq_some h
  have hlt : index < plan.leaves.length := (List.getElem?_eq_some_iff.mp hleaf).1
  refine List.ext_getElem? fun k => ?_
  rw [List.getElem?_set]
  split_ifs with hk hbound
  · subst hk
    simp [getElem?_marks, hleaf]
  · simp [marks, hlt] at hbound
  · rw [getElem?_marks, getElem?_marks]
    cases hother : plan.leaves[k]? with
    | none => rfl
    | some leaf =>
      -- Another position carries another identifier.
      have hne : leaf.1 ≠ id := by
        intro he
        have hsame : (plan.leaves.map Prod.fst)[k]? = (plan.leaves.map Prod.fst)[index]? := by
          simp [hother, hleaf, he]
        exact hk ((List.getElem?_inj (by simpa using hlt) hnodup).mp hsame.symm)
      simp [hne]

/-- A response is accepted exactly when its leaf is known and not yet marked. -/
theorem respond_marks (ids : List UInt8) (id : UInt8) :
    plan.respond (plan.marks ids) id =
      if id ∈ plan.leaves.map Prod.fst then
        if id ∈ ids then .error (.duplicateResponse id) else .ok (plan.marks (ids ++ [id]))
      else .error (.unknownNetworkLeaf id) := by
  unfold respond
  cases hposition : plan.leafPosition id with
  | none => rw [if_neg (leafPosition_eq_none.mp hposition)]
  | some index =>
    obtain ⟨providerId, hleaf⟩ := leafPosition_eq_some hposition
    have hknown : id ∈ plan.leaves.map Prod.fst :=
      List.mem_map.mpr ⟨_, List.mem_of_getElem? hleaf, rfl⟩
    have hmark : (plan.marks ids)[index]? = some (decide (id ∈ ids)) := by
      rw [getElem?_marks, hleaf]
      rfl
    dsimp only
    rw [if_pos hknown, recordResponse_eq, hmark]
    by_cases hmem : id ∈ ids
    · simp [hmem]
    · simp [hmem, marks_set hnodup hposition]

/-- The response loop accepts exactly distinct known identifiers and marks them. -/
theorem foldlM_respond (ids available : List UInt8) (result : List Bool) :
    available.foldlM plan.respond (plan.marks ids) = .ok result ↔
      (∀ id ∈ available, id ∈ plan.leaves.map Prod.fst ∧ id ∉ ids) ∧ available.Nodup ∧
        result = plan.marks (ids ++ available) := by
  induction available generalizing ids with
  | nil => simp [pure, Except.pure, eq_comm]
  | cons id available ih =>
    rw [List.foldlM_cons, respond_marks hnodup]
    split_ifs with hknown hmem
    · simp [hmem]
    · rw [ok_bind, ih, List.append_assoc, List.singleton_append]
      simp only [List.forall_mem_cons, List.nodup_cons, List.mem_append, List.mem_singleton]
      constructor
      · rintro ⟨hall, hdistinct, rfl⟩
        refine ⟨⟨⟨hknown, hmem⟩, fun x hx => ⟨(hall x hx).1, fun h => (hall x hx).2 (.inl h)⟩⟩,
          ⟨fun h => (hall id h).2 (.inr rfl), hdistinct⟩, rfl⟩
      · rintro ⟨⟨-, hall⟩, ⟨hid, hdistinct⟩, rfl⟩
        refine ⟨fun x hx => ⟨(hall x hx).1, ?_⟩, hdistinct, rfl⟩
        rintro (h | rfl)
        · exact (hall x hx).2 h
        · exact hid hx
    · rw [error_bind]
      exact ⟨(fun h => by cases h), fun h => absurd (h.1 id (List.mem_cons_self ..)).1 hknown⟩

/-- The whole loop from no responses. -/
theorem responses_eq_ok {available : List UInt8} {result : List Bool} :
    plan.responses available = .ok result ↔
      (∀ id ∈ available, id ∈ plan.leaves.map Prod.fst) ∧ available.Nodup ∧
        result = plan.marks available := by
  rw [responses, ← marks_nil, foldlM_respond hnodup, List.nil_append]
  simp

end NetworkPlan

namespace ProductionPolicy

variable (policy : ProductionPolicy)

theorem leafIds_nodup : (policy.plan.leaves.map Prod.fst).Nodup := by
  rw [policy.plan_eq]
  exact policy.network.leafIds_sublist.nodup (List.nodup_cons.mp policy.wellFormed.ids).2

/-- Marks of an admitted plan evaluate to the threshold semantics. -/
theorem evaluateNetwork_marks (ids : List UInt8) :
    evaluateNetwork policy.plan.gates (policy.plan.marks ids) =
      policy.network.satisfied (fun id => decide (id ∈ ids)) := by
  rw [NetworkPlan.marks, policy.plan_eq]
  exact NetworkNode.evaluateNetwork_postorder policy.wellFormed.thresholds
    fun id => decide (id ∈ ids)

/-- On distinct known identifiers the decision is the threshold semantics. -/
theorem networkSatisfied_eq_ok {available : List UInt8} {result : Bool} :
    policy.networkSatisfied available = .ok result ↔
      (∀ id ∈ available, id ∈ policy.networkLeafIds) ∧ available.Nodup ∧
        result = policy.network.satisfied (fun id => decide (id ∈ available)) := by
  simp only [networkSatisfied, bind_eq_ok, NetworkPlan.responses_eq_ok policy.leafIds_nodup,
    networkLeafIds]
  constructor
  · rintro ⟨_, ⟨hknown, hnodup, rfl⟩, h⟩
    exact ⟨hknown, hnodup, by rw [← evaluateNetwork_marks]; exact (Except.ok.inj h).symm⟩
  · rintro ⟨hknown, hnodup, rfl⟩
    exact ⟨_, ⟨hknown, hnodup, rfl⟩, by rw [evaluateNetwork_marks]; rfl⟩

end ProductionPolicy

end Leelo.Policy
