import Leelo.Policy.Threshold

/-!
# Agreement of decision and recovery

The decision counts responses over the gates, recovery pushes values through the same
gates. On any values, forged ones included, both refuse the same identifiers. Otherwise
the decision tells whether recovery has enough shares at every gate, so that the only
error left is a disagreement of shares.
-/

namespace Leelo.Policy

open Leelo.Core
open Leelo.Sss (Secret Share)

namespace NetworkNode

/-- As many shares as there are values. -/
private theorem length_presentShares {position : Nat} {values : List (Option Secret)}
    (hbound : position + values.length < 256) :
    (presentShares position values).length = values.countP Option.isSome := by
  fun_induction presentShares position values with
  | case1 => rfl
  | case2 position values ih =>
    rw [List.length_cons] at hbound
    rw [ih (by omega), List.countP_cons_of_neg (by simp)]
  | case3 position value values h ih =>
    rw [List.length_cons] at hbound
    exact absurd h (Sss.ofNat_succ_ne_zero (by omega))
  | case4 position value values h ih =>
    rw [List.length_cons] at hbound
    rw [List.length_cons, ih (by omega), List.countP_cons_of_pos rfl]

/-- A gate has a value exactly when enough of its children do. -/
private theorem combine_isSome {required : UInt8} {values : List (Option Secret)}
    {result : Option Secret} (hbound : values.length ≤ 31)
    (h : combine required values = .ok result) :
    result.isSome = decide (required.toNat ≤ values.countP Option.isSome) := by
  rw [combine, length_presentShares (by omega)] at h
  by_cases hfew : values.countP Option.isSome < required.toNat
  · rw [if_pos hfew] at h
    cases h
    exact (decide_eq_false (not_le.mpr hfew)).symm
  · rw [if_neg hfew] at h
    rw [decide_eq_true (not_lt.mp hfew)]
    cases hreconstruct : Sss.reconstruct required (presentShares 0 values) with
    | error e =>
      rw [hreconstruct] at h
      cases h
    | ok secret =>
      rw [hreconstruct] at h
      cases h
      rfl

/-- Recovery yields a secret exactly where the tree is satisfied. -/
private theorem recover_isSome (supplied : UInt8 → Option Secret) :
    (∀ node : NetworkNode, node.size ≤ 31 → ∀ value, node.recoverTree supplied = .ok value →
      value.isSome = node.satisfied fun id => (supplied id).isSome) ∧
    ∀ children, sizes children ≤ 31 → ∀ values, recoverForest supplied children = .ok values →
      values.length = children.length ∧
        values.countP Option.isSome = satisfiedCount (fun id => (supplied id).isSome) children := by
  refine forest_induction ?leaf ?threshold ?nil ?cons
  case leaf =>
    intro id providerId _ value h
    cases h
    rfl
  case threshold =>
    intro id required children ih hsmall value h
    simp only [size] at hsmall
    have hlength := length_le_sizes children
    obtain ⟨values, hvalues, hcombine⟩ := bind_eq_ok.mp h
    obtain ⟨hlen, hcount⟩ := ih (by omega) values hvalues
    rw [combine_isSome (by omega) hcombine, hcount, satisfied]
  case nil =>
    intro _ values h
    cases h
    exact ⟨rfl, rfl⟩
  case cons =>
    intro child children hchild hchildren hsmall values h
    simp only [sizes] at hsmall
    obtain ⟨value, hvalue, h⟩ := bind_eq_ok.mp h
    obtain ⟨rest, hrest, h⟩ := bind_eq_ok.mp h
    cases h
    obtain ⟨hlen, hcount⟩ := hchildren (by omega) rest hrest
    have hsome := hchild (by omega) value hvalue
    refine ⟨by rw [List.length_cons, List.length_cons, hlen], ?_⟩
    rw [List.countP_cons, hcount, hsome, satisfiedCount, Nat.add_comm]

/-- If recovery ends without an error, it has a value exactly when the supplied leaves satisfy
the tree. -/
theorem recoverTree_isSome {node : NetworkNode} (hsmall : node.size ≤ 31)
    {supplied : UInt8 → Option Secret} {value : Option Secret}
    (h : node.recoverTree supplied = .ok value) :
    value.isSome = node.satisfied fun id => (supplied id).isSome :=
  (recover_isSome supplied).1 node hsmall value h

end NetworkNode

namespace NetworkPlan

variable {plan : NetworkPlan}

/-- A list of responses is refused for an unknown or a repeated leaf. -/
private theorem foldlM_respond_error (hnodup : (plan.leaves.map Prod.fst).Nodup)
    {ids available : List UInt8} {e : PolicyError}
    (h : available.foldlM plan.respond (plan.marks ids) = .error e) :
    (∃ id, e = .unknownNetworkLeaf id) ∨
      (∃ id, e = .duplicateResponse id) ∧ ¬ ((∀ id ∈ available, id ∉ ids) ∧ available.Nodup) := by
  induction available generalizing ids with
  | nil => cases h
  | cons id available ih =>
    rw [List.foldlM_cons, respond_marks hnodup] at h
    by_cases hknown : id ∈ plan.leaves.map Prod.fst
    · rw [if_pos hknown] at h
      by_cases hmem : id ∈ ids
      · rw [if_pos hmem, error_bind] at h
        cases h
        exact .inr ⟨⟨id, rfl⟩, fun hfresh => hfresh.1 id List.mem_cons_self hmem⟩
      · rw [if_neg hmem, ok_bind] at h
        refine (ih h).imp_right fun ⟨hduplicate, hrepeats⟩ =>
          ⟨hduplicate, fun hfresh => hrepeats ?_⟩
        obtain ⟨hids, hdistinct⟩ := hfresh
        rw [List.nodup_cons] at hdistinct
        refine ⟨fun other hother => ?_, hdistinct.2⟩
        rw [List.mem_append, List.mem_singleton]
        rintro (hold | rfl)
        · exact hids other (List.mem_cons_of_mem _ hother) hold
        · exact hdistinct.1 hother
    · rw [if_neg hknown, error_bind] at h
      cases h
      exact .inl ⟨id, rfl⟩

/-- The check of identifiers fails with an unknown leaf, or with a repeated response if there
is one. -/
theorem responses_eq_error (hnodup : (plan.leaves.map Prod.fst).Nodup) {available : List UInt8}
    {e : PolicyError} (h : plan.responses available = .error e) :
    (∃ id, e = .unknownNetworkLeaf id) ∨
      (∃ id, e = .duplicateResponse id) ∧ ¬ available.Nodup := by
  rw [responses, ← marks_nil] at h
  refine (foldlM_respond_error hnodup h).imp_right fun hboth =>
    ⟨hboth.1, fun hdistinct => hboth.2 ⟨fun _ _ => List.not_mem_nil, hdistinct⟩⟩

end NetworkPlan

theorem isSome_findShare (shares : List NetworkShare) (id : UInt8) :
    (findShare shares id).isSome = decide (id ∈ shares.map Prod.fst) := by
  by_cases hmem : id ∈ shares.map Prod.fst
  · obtain ⟨share, hshare, rfl⟩ := List.mem_map.mp hmem
    rw [decide_eq_true hmem, findShare, Option.isSome_map, List.find?_isSome]
    exact ⟨share, hshare, beq_self_eq_true _⟩
  · rw [findShare_eq_none hmem, decide_eq_false hmem]
    rfl

/-- With distinct identifiers the order of the shares does not matter. -/
theorem findShare_perm {shares shares' : List NetworkShare} (hperm : shares.Perm shares')
    (hnodup : (shares.map Prod.fst).Nodup) : findShare shares' = findShare shares := by
  have hnodup' : (shares'.map Prod.fst).Nodup := (hperm.map Prod.fst).nodup_iff.mp hnodup
  funext id
  by_cases hmem : id ∈ shares.map Prod.fst
  · obtain ⟨share, hshare, rfl⟩ := List.mem_map.mp hmem
    rw [findShare_of_mem hnodup hshare, findShare_of_mem hnodup' (hperm.mem_iff.mp hshare)]
  · rw [findShare_eq_none hmem,
      findShare_eq_none fun hmem' => hmem ((hperm.map Prod.fst).mem_iff.mpr hmem')]

namespace ProductionPolicy

variable (policy : ProductionPolicy)

/-- The decision refuses what the check of identifiers refuses. -/
theorem networkSatisfied_eq_error {available : List UInt8} {e : PolicyError} :
    policy.networkSatisfied available = .error e ↔ policy.plan.responses available = .error e := by
  unfold networkSatisfied
  cases policy.plan.responses available with
  | error e' =>
    rw [error_bind, Except.error.injEq, Except.error.injEq]
  | ok responses => exact ⟨(fun h => by cases h), (fun h => by cases h)⟩

/-- The identifiers pass the check, so recovery is decided by the tree. -/
theorem recoverNetwork_of_satisfied {shares : List NetworkShare} {result : Bool}
    (h : policy.networkSatisfied (shares.map Prod.fst) = .ok result) :
    policy.recoverNetwork shares =
      recoveryResult (policy.network.recoverTree (findShare shares)) := by
  rw [recoverNetwork_eq]
  cases hresponses : policy.plan.responses (shares.map Prod.fst) with
  | ok responses => rfl
  | error e =>
    rw [policy.networkSatisfied_eq_error.mpr hresponses] at h
    cases h

/-- What recovery can return for identifiers that pass the check. -/
theorem recoverNetwork_cases {shares : List NetworkShare} {result : Bool}
    (h : policy.networkSatisfied (shares.map Prod.fst) = .ok result) :
    (∃ secret, result = true ∧ policy.recoverNetwork shares = .ok secret) ∨
      result = false ∧ policy.recoverNetwork shares = .error (.error .factorsNotSatisfied) ∨
        policy.recoverNetwork shares = .error (.error (.sharing .inconsistentShares)) := by
  rw [policy.recoverNetwork_of_satisfied h]
  obtain ⟨-, -, rfl⟩ := policy.networkSatisfied_eq_ok.mp h
  rcases NetworkNode.recoverTree_cases policy.wellFormed.thresholds policy.size_le
    (findShare shares) with ⟨value, hvalue⟩ | herror
  · have hsome := NetworkNode.recoverTree_isSome policy.size_le hvalue
    simp only [isSome_findShare] at hsome
    rw [hvalue, ← hsome]
    cases value with
    | none => exact .inr (.inl ⟨rfl, rfl⟩)
    | some secret => exact .inl ⟨secret, rfl, rfl⟩
  · rw [herror]
    exact .inr (.inr rfl)

/-- Distinct identifiers are all known, or one that is not known is refused. -/
private theorem recoverNetwork_distinct {shares : List NetworkShare}
    (hnodup : (shares.map Prod.fst).Nodup) :
    (∀ id ∈ shares.map Prod.fst, id ∈ policy.networkLeafIds) ∧
        policy.recoverNetwork shares =
          recoveryResult (policy.network.recoverTree (findShare shares)) ∨
      ¬ (∀ id ∈ shares.map Prod.fst, id ∈ policy.networkLeafIds) ∧
        ∃ id, policy.recoverNetwork shares = .error (.error (.unknownNetworkLeaf id)) := by
  by_cases hknown : ∀ id ∈ shares.map Prod.fst, id ∈ policy.networkLeafIds
  · have hsatisfied := policy.networkSatisfied_eq_ok.mpr ⟨hknown, hnodup, rfl⟩
    exact .inl ⟨hknown, policy.recoverNetwork_of_satisfied hsatisfied⟩
  · refine .inr ⟨hknown, ?_⟩
    cases hresponses : policy.plan.responses (shares.map Prod.fst) with
    | ok responses =>
      exact absurd ((NetworkPlan.responses_eq_ok policy.leafIds_nodup).mp hresponses).1 hknown
    | error e =>
      rcases NetworkPlan.responses_eq_error policy.leafIds_nodup hresponses with
        ⟨id, rfl⟩ | ⟨_, hrepeats⟩
      · exact ⟨id, by rw [recoverNetwork_eq, hresponses]⟩
      · exact absurd hnodup hrepeats

/-- An identifier was not known, or was given twice. -/
def Refuses (e : PolicyError) : Prop :=
  (∃ id, e = .unknownNetworkLeaf id) ∨ ∃ id, e = .duplicateResponse id

/-- Decision and recovery agree on arbitrary shares. They refuse the same identifiers with the same
error; otherwise recovery returns a secret after a positive decision, lacks factors after a negative
one, or finds shares that disagree. -/
theorem recoverNetwork_agrees (shares : List NetworkShare) :
    (∀ e, policy.networkSatisfied (shares.map Prod.fst) = .error e ↔
      policy.recoverNetwork shares = .error (.error e) ∧ Refuses e) ∧
    (policy.networkSatisfied (shares.map Prod.fst) = .ok true →
      (∃ secret, policy.recoverNetwork shares = .ok secret) ∨
        policy.recoverNetwork shares = .error (.error (.sharing .inconsistentShares))) ∧
    (policy.networkSatisfied (shares.map Prod.fst) = .ok false →
      policy.recoverNetwork shares = .error (.error .factorsNotSatisfied) ∨
        policy.recoverNetwork shares = .error (.error (.sharing .inconsistentShares))) ∧
    (∀ result, policy.networkSatisfied (shares.map Prod.fst) = .ok result →
      ∀ shares', shares.Perm shares' →
        policy.recoverNetwork shares' = policy.recoverNetwork shares) ∧
    ∀ shares', shares.Perm shares' → (shares.map Prod.fst).Nodup →
      policy.recoverNetwork shares' = policy.recoverNetwork shares ∨
        ∃ id id', policy.recoverNetwork shares = .error (.error (.unknownNetworkLeaf id)) ∧
          policy.recoverNetwork shares' = .error (.error (.unknownNetworkLeaf id')) := by
  have hcases := fun result => @recoverNetwork_cases policy shares result
  refine ⟨fun e => ⟨fun h => ?_, fun ⟨h, hrefuses⟩ => ?_⟩, fun h => ?_, fun h => ?_, ?_, ?_⟩
  · have hresponses := policy.networkSatisfied_eq_error.mp h
    refine ⟨by rw [recoverNetwork_eq, hresponses], ?_⟩
    exact (NetworkPlan.responses_eq_error policy.leafIds_nodup hresponses).imp_right And.left
  · cases hsatisfied : policy.networkSatisfied (shares.map Prod.fst) with
    | error e' =>
      rw [recoverNetwork_eq, policy.networkSatisfied_eq_error.mp hsatisfied] at h
      cases h
      rfl
    | ok result =>
      -- past the check no error names an identifier
      rcases hcases result hsatisfied with ⟨_, _, hrecover⟩ | ⟨_, hrecover⟩ | hrecover
      · cases hrecover.symm.trans h
      · cases hrecover.symm.trans h
        rcases hrefuses with ⟨id, hid⟩ | ⟨id, hid⟩ <;> cases hid
      · cases hrecover.symm.trans h
        rcases hrefuses with ⟨id, hid⟩ | ⟨id, hid⟩ <;> cases hid
  · rcases hcases true h with ⟨secret, _, hrecover⟩ | ⟨hfalse, _⟩ | hrecover
    · exact .inl ⟨secret, hrecover⟩
    · cases hfalse
    · exact .inr hrecover
  · rcases hcases false h with ⟨_, htrue, _⟩ | ⟨_, hrecover⟩ | hrecover
    · cases htrue
    · exact .inl hrecover
    · exact .inr hrecover
  · intro result h shares' hperm
    obtain ⟨hknown, hnodup, -⟩ := policy.networkSatisfied_eq_ok.mp h
    have hids := hperm.map Prod.fst
    have h' := policy.networkSatisfied_eq_ok.mpr
      ⟨fun id hid => hknown id (hids.mem_iff.mpr hid), hids.nodup_iff.mp hnodup, rfl⟩
    rw [policy.recoverNetwork_of_satisfied h, policy.recoverNetwork_of_satisfied h',
      findShare_perm hperm hnodup]
  · intro shares' hperm hnodup
    have hids := hperm.map Prod.fst
    have hknown : (∀ id ∈ shares'.map Prod.fst, id ∈ policy.networkLeafIds) ↔
        ∀ id ∈ shares.map Prod.fst, id ∈ policy.networkLeafIds :=
      forall_congr' fun id => imp_congr_left hids.mem_iff.symm
    rcases policy.recoverNetwork_distinct hnodup with ⟨hall, hrecover⟩ | ⟨hnot, id, hrecover⟩
    · rcases policy.recoverNetwork_distinct (hids.nodup_iff.mp hnodup) with
        ⟨_, hrecover'⟩ | ⟨hnot, _⟩
      · exact .inl (by rw [hrecover', hrecover, findShare_perm hperm hnodup])
      · exact absurd (hknown.mpr hall) hnot
    · rcases policy.recoverNetwork_distinct (hids.nodup_iff.mp hnodup) with
        ⟨hall, _⟩ | ⟨_, id', hrecover'⟩
      · exact absurd (hknown.mp hall) hnot
      · exact .inr ⟨id, id', hrecover, hrecover'⟩

/-- Three leaves that decide positively recover a secret, whatever their order. -/
theorem recoverNetwork_agrees_trio :
    trioPolicy.networkSatisfied [7, 4, 6] = .ok true ∧
    (∃ secret, trioPolicy.recoverNetwork [(7, Vector.replicate 32 12), (4, Vector.replicate 32 3),
      (6, Vector.replicate 32 3)] = .ok secret) ∧
    trioPolicy.recoverNetwork [(4, Vector.replicate 32 3), (6, Vector.replicate 32 3),
        (7, Vector.replicate 32 12)] =
      trioPolicy.recoverNetwork [(7, Vector.replicate 32 12), (4, Vector.replicate 32 3),
        (6, Vector.replicate 32 3)] := by
  have hagrees := recoverNetwork_agrees trioPolicy [(7, Vector.replicate 32 12),
    (4, Vector.replicate 32 3), (6, Vector.replicate 32 3)]
  have hsatisfied : trioPolicy.networkSatisfied [7, 4, 6] = .ok true := by
    decide +kernel
  refine ⟨hsatisfied, (hagrees.2.1 hsatisfied).resolve_right (by decide +kernel), ?_⟩
  exact hagrees.2.2.2.1 true hsatisfied _ (List.perm_append_singleton _ [_, _]).symm

end ProductionPolicy

end Leelo.Policy
