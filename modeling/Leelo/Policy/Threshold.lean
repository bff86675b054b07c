import Leelo.Core.Lists
import Leelo.Policy.Recovery
import Mathlib.Data.List.GetD

/-!
# Exactness and robustness of nested threshold recovery

An honest sharing puts every gate's children on low-degree polynomials with the
gate's value at zero. Recovery from any honest leaves yields the secret exactly
when they satisfy the tree. With tampered leaves beside enough honest ones, it
yields the secret or reports the disagreement, because enough points determine
the polynomials at every level.
-/

namespace Leelo.Policy

open Polynomial Leelo.Core
open Leelo.Sss (Secret Share FieldByte secretLen)

/-- One polynomial for each byte of a secret. -/
abbrev BytePolys := Fin secretLen → FieldByte[X]

/-- The polynomials have the given value at a coordinate. -/
def PassesThrough (polys : BytePolys) (x : UInt8) (value : Secret) : Prop :=
  ∀ byte, (polys byte).eval ⟨x⟩ = ⟨value.get byte⟩

namespace NetworkNode

mutual
/-- The leaf values share a secret down a tree. -/
def Shared (honest : UInt8 → Secret) : NetworkNode → Secret → Prop
  | .leaf id _, secret => honest id = secret
  | .threshold _ required children, secret =>
    ∃ polys : BytePolys, (∀ byte, (polys byte).degree < required.toNat) ∧
      PassesThrough polys 0 secret ∧ SharedAll honest polys 0 children
/-- Each tree of a forest shares the value at its coordinate. -/
def SharedAll (honest : UInt8 → Secret) (polys : BytePolys) : Nat → List NetworkNode → Prop
  | _, [] => True
  | position, child :: children =>
    (∃ value, Shared honest child value ∧
      PassesThrough polys (UInt8.ofNat (position + 1)) value) ∧
      SharedAll honest polys (position + 1) children
end

/-- Shares in order at the coordinates after a position. -/
def SharesFrom (polys : BytePolys) (position : Nat) (shares : List Share) : Prop :=
  ∀ k share, shares[k]? = some share →
    PassesThrough polys (UInt8.ofNat (position + k + 1)) share.value

variable {polys : BytePolys} {position : Nat} {ρ : Type} {rng : Sss.Rng ρ} {secret : Secret}
  {required : UInt8} {values : List (Option Secret)} {node : NetworkNode}

theorem sharesFrom_cons {share : Share} {shares : List Share}
    (h : SharesFrom polys position (share :: shares)) :
    PassesThrough polys (UInt8.ofNat (position + 1)) share.value ∧
      SharesFrom polys (position + 1) shares := by
  refine ⟨h 0 share rfl, fun k other hother => ?_⟩
  have hshift : position + 1 + k + 1 = position + (k + 1) + 1 := by omega
  rw [hshift]
  exact h (k + 1) other hother

/-- A split puts its shares on low-degree polynomials through the secret. -/
theorem split_sharesFrom {threshold count : UInt8} {r r' : ρ} {shares : List Share}
    (hpos : 0 < threshold.toNat) (hle : threshold.toNat ≤ count.toNat)
    (hmax : count.toNat ≤ Sss.maxShares.toNat)
    (h : Sss.split rng secret threshold count r = .ok (shares, r')) :
    shares.length = count.toNat ∧ ∃ polys : BytePolys,
      (∀ byte, (polys byte).degree < threshold.toNat) ∧ PassesThrough polys 0 secret ∧
        SharesFrom polys 0 shares := by
  obtain ⟨rows, rfl, hdegree⟩ := Sss.split_eq_ok hpos hle hmax h
  refine ⟨by simp [Sss.sharesOf], fun byte => Sss.sharePoly secret[byte] (rows.getD byte []),
    hdegree, fun byte => Sss.eval_sharePoly_zero _ _, fun k share hshare byte => ?_⟩
  simp only [Sss.sharesOf, List.getElem?_map, Option.map_eq_some_iff] at hshare
  obtain ⟨i, hi, rfl⟩ := hshare
  obtain ⟨hk, rfl⟩ := List.getElem?_eq_some_iff.mp hi
  simp only [List.getElem_finRange, Fin.cast_mk, Nat.zero_add]
  exact Sss.eval_shareValue secret rows (UInt8.ofNat (k + 1)) byte

/-- The bounds of a gate of a small tree fit the sharing limits. -/
theorem gate_bounds {children : List NetworkNode}
    (hvalid : 1 ≤ required.toNat ∧ required.toNat ≤ children.length)
    (hsmall : sizes children < 31) :
    0 < required.toNat ∧ required.toNat ≤ (UInt8.ofNat children.length).toNat ∧
      (UInt8.ofNat children.length).toNat ≤ Sss.maxShares.toNat ∧
      (UInt8.ofNat children.length).toNat = children.length := by
  have hlength := length_le_sizes children
  have hcount : (UInt8.ofNat children.length).toNat = children.length :=
    UInt8.toNat_ofNat_of_lt' (by simp only [UInt8.size]; omega)
  have hmax : Sss.maxShares.toNat = 31 := rfl
  omega

/-- With a generator that fills every request, splitting a small valid tree succeeds. -/
private theorem split_ok (hfills : rng.Fills) :
    (∀ node : NetworkNode, node.ThresholdsValid → node.size ≤ 31 → ∀ secret r,
      ∃ out, node.splitTree rng secret r = .ok out) ∧
    ∀ children, ThresholdsValidAll children → sizes children ≤ 31 → ∀ shares r,
      ∃ out, splitForest rng children shares r = .ok out := by
  refine forest_induction ?leaf ?threshold ?nil ?cons
  case leaf => exact fun _ _ _ _ _ _ => ⟨_, rfl⟩
  case threshold =>
    intro id required children ih hvalid hsmall secret r
    simp only [ThresholdsValid] at hvalid
    simp only [size] at hsmall
    obtain ⟨hpos, hle, hmax, -⟩ := gate_bounds ⟨hvalid.1, hvalid.2.1⟩ (by omega)
    obtain ⟨rows, r', hrows⟩ := hfills.fillRows (required.toNat - 1) secretLen r
    have hsplit := Sss.split_eq rng secret r hpos hle hmax
    rw [hrows] at hsplit
    rw [splitTree, hsplit]
    exact ih hvalid.2.2 (by omega) _ _
  case nil => exact fun _ _ shares r => ⟨([], r), by cases shares <;> rfl⟩
  case cons =>
    intro child children hchild hchildren hvalid hsmall shares r
    simp only [ThresholdsValidAll] at hvalid
    simp only [sizes] at hsmall
    cases shares with
    | nil => exact ⟨([], r), rfl⟩
    | cons share shares =>
      obtain ⟨⟨first, r1⟩, hfirst⟩ := hchild hvalid.1 (by omega) share.value r
      obtain ⟨⟨rest, r2⟩, hrest⟩ := hchildren hvalid.2 (by omega) shares r1
      exact ⟨(first ++ rest, r2), by simp only [splitForest, hfirst, ok_bind, hrest]⟩

/-- A successful split names every leaf in order and shares the secret. -/
private theorem split_shared :
    (∀ node : NetworkNode, node.ThresholdsValid → node.size ≤ 31 →
      ∀ secret r out, node.splitTree rng secret r = .ok out →
      out.1.map Prod.fst = node.leaves.map Prod.fst ∧
      ∀ honest : UInt8 → Secret, (∀ share ∈ out.1, honest share.1 = share.2) →
        node.Shared honest secret) ∧
    ∀ children, ThresholdsValidAll children → sizes children ≤ 31 →
      ∀ polys position shares r out, shares.length = children.length →
      SharesFrom polys position shares → splitForest rng children shares r = .ok out →
      out.1.map Prod.fst = (leavesAll children).map Prod.fst ∧
      ∀ honest : UInt8 → Secret, (∀ share ∈ out.1, honest share.1 = share.2) →
        SharedAll honest polys position children := by
  refine forest_induction ?leaf ?threshold ?nil ?cons
  case leaf =>
    intro id providerId _ _ secret r out h
    obtain rfl := Except.ok.inj h
    exact ⟨rfl, fun honest hhonest => hhonest (id, secret) (List.mem_singleton.mpr rfl)⟩
  case threshold =>
    intro id required children ih hvalid hsmall secret r out h
    simp only [ThresholdsValid] at hvalid
    simp only [size] at hsmall
    obtain ⟨hpos, hle, hmax, hcount⟩ := gate_bounds ⟨hvalid.1, hvalid.2.1⟩ (by omega)
    rw [splitTree, bind_eq_ok] at h
    obtain ⟨⟨shares, r'⟩, hsplit, hforest⟩ := h
    obtain ⟨hlength, polys, hdegree, hzero, hfrom⟩ := split_sharesFrom hpos hle hmax hsplit
    obtain ⟨hids, hshared⟩ := ih hvalid.2.2 (by omega) polys 0 shares r' out
      (hlength.trans hcount) hfrom hforest
    exact ⟨hids, fun honest hhonest => ⟨polys, hdegree, hzero, hshared honest hhonest⟩⟩
  case nil =>
    intro _ _ polys position shares r out hlength _ h
    obtain rfl := List.length_eq_zero_iff.mp hlength
    obtain rfl := Except.ok.inj h
    exact ⟨rfl, fun _ _ => trivial⟩
  case cons =>
    intro child children hchild hchildren hvalid hsmall polys position shares r out hlength
      hfrom h
    simp only [ThresholdsValidAll] at hvalid
    simp only [sizes] at hsmall
    obtain _ | ⟨share, shares⟩ := shares
    · simp at hlength
    obtain ⟨hhead, htail⟩ := sharesFrom_cons hfrom
    rw [splitForest, bind_eq_ok] at h
    obtain ⟨first, hfirst, h⟩ := h
    obtain ⟨rest, hrest, h⟩ := bind_eq_ok.mp h
    obtain rfl := Except.ok.inj h
    obtain ⟨hids, hshared⟩ := hchild hvalid.1 (by omega) share.value r first hfirst
    obtain ⟨hids', hshared'⟩ := hchildren hvalid.2 (by omega) polys (position + 1) shares _ rest
      (Nat.succ.inj hlength) htail hrest
    refine ⟨by rw [List.map_append, hids, hids', leavesAll, List.map_append], ?_⟩
    intro honest hhonest
    exact ⟨⟨share.value, hshared honest fun s hs => hhonest s (List.mem_append_left _ hs), hhead⟩,
      hshared' honest fun s hs => hhonest s (List.mem_append_right _ hs)⟩

theorem length_presentShares_le (position : Nat) (values : List (Option Secret)) :
    (presentShares position values).length ≤ values.length := by
  fun_induction presentShares position values with
  | case1 => exact le_rfl
  | case2 position values ih => exact ih.trans (Nat.le_succ _)
  | case3 position value values h ih => exact ih.trans (Nat.le_succ _)
  | case4 position value values h ih => exact Nat.succ_le_succ ih

/-- Present shares carry increasing coordinates after the position. -/
theorem presentShares_index (hbound : position + values.length < 256) :
    (∀ share ∈ presentShares position values, position < share.index.toNat) ∧
      ((presentShares position values).map Share.index).Nodup := by
  fun_induction presentShares position values with
  | case1 => simp
  | case2 position values ih =>
    rw [List.length_cons] at hbound
    obtain ⟨hafter, hnodup⟩ := ih (by omega)
    exact ⟨fun share hshare => Nat.lt_of_succ_lt (hafter share hshare), hnodup⟩
  | case3 position value values h ih =>
    rw [List.length_cons] at hbound
    exact absurd h (Sss.ofNat_succ_ne_zero (by omega))
  | case4 position value values h ih =>
    rw [List.length_cons] at hbound
    obtain ⟨hafter, hnodup⟩ := ih (by omega)
    have hindex : (UInt8.ofNat (position + 1)).toNat = position + 1 :=
      UInt8.toNat_ofNat_of_lt' (by simp only [UInt8.size]; omega)
    refine ⟨?_, ?_⟩
    · rw [List.forall_mem_cons]
      exact ⟨by rw [hindex]; omega, fun share hshare => Nat.lt_of_succ_lt (hafter share hshare)⟩
    · rw [List.map_cons, List.nodup_cons]
      refine ⟨fun hmem => ?_, hnodup⟩
      obtain ⟨share, hshare, he⟩ := List.mem_map.mp hmem
      have := hafter share hshare
      rw [he, hindex] at this
      omega

/-- Enough present shares pass the validation of reconstruction. -/
theorem validShares_presentShares (hpos : 0 < required.toNat) (hbound : values.length ≤ 31)
    (henough : required.toNat ≤ (presentShares 0 values).length) :
    Sss.ValidShares required (presentShares 0 values) where
  positive := hpos
  enough := henough
  bounded := (length_presentShares_le 0 values).trans hbound
  distinct := (presentShares_index (by omega)).2

theorem presentShares_some {value : Secret} (hbound : position + 1 < 256) :
    presentShares position (some value :: values) =
      ⟨UInt8.ofNat (position + 1), value, Sss.ofNat_succ_ne_zero hbound⟩ ::
        presentShares (position + 1) values := by
  rw [presentShares, dif_neg (Sss.ofNat_succ_ne_zero hbound)]

/-- The values supplied by the present leaves of an honest sharing. -/
def supplyHonest (present : UInt8 → Bool) (honest : UInt8 → Secret) (id : UInt8) :
    Option Secret :=
  if present id then some (honest id) else none

/-- Combining points of the gate's polynomials gives the value at zero, or no
value when there are too few of them. -/
theorem combine_exact (hpos : 0 < required.toNat) (hbound : values.length ≤ 31)
    (hdegree : ∀ byte, (polys byte).degree < required.toNat)
    (hzero : PassesThrough polys 0 secret)
    (hpoints : ∀ share ∈ presentShares 0 values, PassesThrough polys share.index share.value) :
    combine required values =
      .ok (if required.toNat ≤ (presentShares 0 values).length then some secret else none) := by
  rw [combine]
  by_cases henough : required.toNat ≤ (presentShares 0 values).length
  · have hvalid := validShares_presentShares hpos hbound henough
    have hpoly : Sss.OnPolynomials required.toNat (presentShares 0 values) secret :=
      fun byte => ⟨polys byte, hdegree byte, fun share hshare => hpoints share hshare byte,
        hzero byte⟩
    rw [if_neg (not_lt.mpr henough), (Sss.reconstruct_eq_ok_iff hvalid secret).mpr hpoly,
      if_pos henough]
    rfl
  · rw [if_pos (not_le.mp henough), if_neg henough]

/-- Honest shares recover the secret exactly where the tree is satisfied. -/
private theorem recover_exact (present : UInt8 → Bool) (honest : UInt8 → Secret) :
    (∀ node : NetworkNode, node.ThresholdsValid → node.size ≤ 31 → ∀ secret,
      node.Shared honest secret →
      node.recoverTree (supplyHonest present honest) =
        .ok (if node.satisfied present then some secret else none)) ∧
    ∀ children, ThresholdsValidAll children → sizes children ≤ 31 → ∀ polys position,
      position + children.length < 256 → SharedAll honest polys position children →
      ∃ values, recoverForest (supplyHonest present honest) children = .ok values ∧
        values.length = children.length ∧
        (∀ share ∈ presentShares position values,
          PassesThrough polys share.index share.value) ∧
        (presentShares position values).length = satisfiedCount present children := by
  refine forest_induction ?leaf ?threshold ?nil ?cons
  case leaf =>
    rintro id providerId _ _ secret rfl
    rfl
  case threshold =>
    intro id required children ih hvalid hsmall secret hshared
    simp only [ThresholdsValid] at hvalid
    simp only [size] at hsmall
    obtain ⟨polys, hdegree, hzero, hall⟩ := hshared
    have hlength := length_le_sizes children
    obtain ⟨values, hvalues, hlen, hpoints, hcount⟩ :=
      ih hvalid.2.2 (by omega) polys 0 (by omega) hall
    rw [recoverTree, hvalues, ok_bind,
      combine_exact (by omega) (by omega) hdegree hzero hpoints, hcount]
    simp only [satisfied, decide_eq_true_eq]
  case nil =>
    intro _ _ polys position _ _
    exact ⟨[], rfl, rfl, by simp [presentShares], rfl⟩
  case cons =>
    intro child children hchild hchildren hvalid hsmall polys position hbound hshared
    simp only [ThresholdsValidAll] at hvalid
    simp only [sizes] at hsmall
    rw [List.length_cons] at hbound
    obtain ⟨⟨value, hvalue, hpoint⟩, hrest⟩ := hshared
    have hfirst := hchild hvalid.1 (by omega) value hvalue
    obtain ⟨values, hvalues, hlen, hpoints, hcount⟩ :=
      hchildren hvalid.2 (by omega) polys (position + 1) (by omega) hrest
    refine ⟨_, by rw [recoverForest, hfirst, ok_bind, hvalues, ok_bind], by simp [hlen], ?_⟩
    rw [satisfiedCount]
    cases child.satisfied present with
    | false =>
      rw [if_neg Bool.false_ne_true, presentShares]
      exact ⟨hpoints, by rw [hcount]; simp⟩
    | true =>
      rw [if_pos rfl, presentShares_some (by omega), List.forall_mem_cons]
      exact ⟨⟨hpoint, hpoints⟩, by simp [hcount, Nat.add_comm]⟩

/-- Recovery from honest leaves is the secret exactly when they satisfy the tree. -/
theorem recoverTree_honest (hvalid : node.ThresholdsValid) (hsmall : node.size ≤ 31)
    {honest : UInt8 → Secret} (hshared : node.Shared honest secret) (present : UInt8 → Bool) :
    node.recoverTree (supplyHonest present honest) =
      .ok (if node.satisfied present then some secret else none) :=
  (recover_exact present honest).1 node hvalid hsmall secret hshared

/-- Enough honest points among the combined shares force the honest value. -/
theorem combine_robust {result : Option Secret} (hpos : 0 < required.toNat)
    (hbound : values.length ≤ 31) (hdegree : ∀ byte, (polys byte).degree < required.toNat)
    (hzero : PassesThrough polys 0 secret) {points : List Share}
    (hsub : points.Sublist (presentShares 0 values)) (henough : required.toNat ≤ points.length)
    (hpoints : ∀ share ∈ points, PassesThrough polys share.index share.value)
    (h : combine required values = .ok result) : result = some secret := by
  have hlength := henough.trans hsub.length_le
  have hvalid := validShares_presentShares hpos hbound hlength
  rw [combine, if_neg (not_lt.mpr hlength)] at h
  cases hreconstruct : Sss.reconstruct required (presentShares 0 values) with
  | error e => simp [hreconstruct, Except.map] at h
  | ok recovered =>
    rw [hreconstruct] at h
    obtain rfl : some recovered = result := Except.ok.inj h
    refine congrArg some (Vector.ext fun k hk => ?_)
    obtain ⟨p, hp, heval, hsecret⟩ :=
      (Sss.reconstruct_eq_ok_iff hvalid recovered).mp hreconstruct ⟨k, hk⟩
    -- Both polynomials pass through the honest points, so they agree at zero.
    have hnodup : (points.map fun share => (⟨share.index⟩ : FieldByte)).Nodup := by
      have hinjective : Function.Injective FieldByte.mk := fun _ _ he => congrArg FieldByte.byte he
      have hdistinct := (hvalid.distinct.sublist (hsub.map Share.index)).map hinjective
      rw [List.map_map] at hdistinct
      exact hdistinct
    have heq : p = polys ⟨k, hk⟩ := by
      refine poly_eq_of_eval_eq hp (hdegree ⟨k, hk⟩) hnodup (by simpa using henough) ?_
      intro x hx
      obtain ⟨share, hshare, rfl⟩ := List.mem_map.mp hx
      rw [heval share (hsub.subset hshare), hpoints share hshare ⟨k, hk⟩]
      rfl
    have hzeros : (⟨recovered[k]⟩ : FieldByte) = ⟨secret[k]⟩ := by
      have := hzero ⟨k, hk⟩
      rw [← heq] at this
      exact hsecret.symm.trans this
    exact congrArg FieldByte.byte hzeros

/-- Where the untouched leaves satisfy the tree, what is recovered is the secret. -/
private theorem recover_robust (supplied : UInt8 → Option Secret) (honest : UInt8 → Secret)
    (untouched : UInt8 → Bool) (huntouched : ∀ id, untouched id = true →
      supplied id = some (honest id)) :
    (∀ node : NetworkNode, node.ThresholdsValid → node.size ≤ 31 → ∀ secret result,
      node.Shared honest secret → node.recoverTree supplied = .ok result →
      node.satisfied untouched = true → result = some secret) ∧
    ∀ children, ThresholdsValidAll children → sizes children ≤ 31 → ∀ polys position values,
      position + children.length < 256 → SharedAll honest polys position children →
      recoverForest supplied children = .ok values →
      values.length = children.length ∧
      ∃ points : List Share, points.Sublist (presentShares position values) ∧
        points.length = satisfiedCount untouched children ∧
        ∀ share ∈ points, PassesThrough polys share.index share.value := by
  refine forest_induction ?leaf ?threshold ?nil ?cons
  case leaf =>
    rintro id providerId _ _ secret result rfl h hsatisfied
    obtain rfl := Except.ok.inj h
    exact huntouched id hsatisfied
  case threshold =>
    intro id required children ih hvalid hsmall secret result hshared h hsatisfied
    simp only [ThresholdsValid] at hvalid
    simp only [size] at hsmall
    simp only [satisfied, decide_eq_true_eq] at hsatisfied
    obtain ⟨polys, hdegree, hzero, hall⟩ := hshared
    have hlength := length_le_sizes children
    rw [recoverTree, bind_eq_ok] at h
    obtain ⟨values, hvalues, hcombine⟩ := h
    obtain ⟨hlen, points, hsub, hcount, hpoints⟩ :=
      ih hvalid.2.2 (by omega) polys 0 values (by omega) hall hvalues
    exact combine_robust (by omega) (by omega) hdegree hzero hsub (hcount ▸ hsatisfied) hpoints
      hcombine
  case nil =>
    intro _ _ polys position values _ _ h
    obtain rfl := Except.ok.inj h
    exact ⟨rfl, [], List.nil_sublist _, rfl, by simp⟩
  case cons =>
    intro child children hchild hchildren hvalid hsmall polys position values hbound hshared h
    simp only [ThresholdsValidAll] at hvalid
    simp only [sizes] at hsmall
    rw [List.length_cons] at hbound
    obtain ⟨⟨value, hvalue, hpoint⟩, hrest⟩ := hshared
    rw [recoverForest, bind_eq_ok] at h
    obtain ⟨first, hfirst, h⟩ := h
    obtain ⟨rest, hforest, h⟩ := bind_eq_ok.mp h
    obtain rfl := Except.ok.inj h
    obtain ⟨hlen, points, hsub, hcount, hpoints⟩ :=
      hchildren hvalid.2 (by omega) polys (position + 1) rest (by omega) hrest hforest
    refine ⟨by simp [hlen], ?_⟩
    rw [satisfiedCount]
    cases hsatisfied : child.satisfied untouched with
    | false =>
      -- A child without enough untouched leaves may carry any value.
      refine ⟨points, ?_, by simp [hcount], hpoints⟩
      cases first with
      | none => exact hsub
      | some wrong =>
        rw [presentShares_some (by omega)]
        exact hsub.cons _
    | true =>
      obtain rfl := hchild hvalid.1 (by omega) value first hvalue hfirst hsatisfied
      rw [presentShares_some (by omega)]
      refine ⟨_, hsub.cons_cons _, by simp [hcount, Nat.add_comm], ?_⟩
      rw [List.forall_mem_cons]
      exact ⟨hpoint, hpoints⟩

/-- Recovery past untouched leaves that satisfy the tree can only be the secret. -/
theorem recoverTree_untouched (hvalid : node.ThresholdsValid) (hsmall : node.size ≤ 31)
    {honest : UInt8 → Secret} (hshared : node.Shared honest secret)
    {supplied : UInt8 → Option Secret} {untouched : UInt8 → Bool}
    (huntouched : ∀ id, untouched id = true → supplied id = some (honest id))
    (hsatisfied : node.satisfied untouched = true) {result : Option Secret}
    (h : node.recoverTree supplied = .ok result) : result = some secret :=
  (recover_robust supplied honest untouched huntouched).1 node hvalid hsmall secret result
    hshared h hsatisfied

/-- On any values the only error of recovery is a disagreement of shares. -/
private theorem recover_cases (supplied : UInt8 → Option Secret) :
    (∀ node : NetworkNode, node.ThresholdsValid → node.size ≤ 31 →
      (∃ value, node.recoverTree supplied = .ok value) ∨
        node.recoverTree supplied = .error .inconsistentShares) ∧
    ∀ children, ThresholdsValidAll children → sizes children ≤ 31 →
      (∃ values, recoverForest supplied children = .ok values ∧
        values.length = children.length) ∨
        recoverForest supplied children = .error .inconsistentShares := by
  refine forest_induction ?leaf ?threshold ?nil ?cons
  case leaf => exact fun id _ _ _ => .inl ⟨_, rfl⟩
  case threshold =>
    intro id required children ih hvalid hsmall
    simp only [ThresholdsValid] at hvalid
    simp only [size] at hsmall
    have hlength := length_le_sizes children
    rw [recoverTree]
    rcases ih hvalid.2.2 (by omega) with ⟨values, hvalues, hlen⟩ | herror
    · rw [hvalues, ok_bind, combine]
      split_ifs with hfew
      · exact .inl ⟨none, rfl⟩
      · have hshares := validShares_presentShares (by omega) (by omega) (not_lt.mp hfew)
        rcases Sss.reconstruct_cases hshares with ⟨secret, hok⟩ | herror
        · exact .inl ⟨some secret, by rw [hok]; rfl⟩
        · exact .inr (by rw [herror]; rfl)
    · exact .inr (by rw [herror, error_bind])
  case nil => exact fun _ _ => .inl ⟨[], rfl, rfl⟩
  case cons =>
    intro child children hchild hchildren hvalid hsmall
    simp only [ThresholdsValidAll] at hvalid
    simp only [sizes] at hsmall
    rw [recoverForest]
    rcases hchild hvalid.1 (by omega) with ⟨value, hvalue⟩ | herror
    · rw [hvalue, ok_bind]
      rcases hchildren hvalid.2 (by omega) with ⟨values, hvalues, hlen⟩ | herror
      · exact .inl ⟨value :: values, by rw [hvalues]; rfl, by simp [hlen]⟩
      · exact .inr (by rw [herror, error_bind])
    · exact .inr (by rw [herror, error_bind])

theorem recoverTree_cases (hvalid : node.ThresholdsValid) (hsmall : node.size ≤ 31)
    (supplied : UInt8 → Option Secret) :
    (∃ value, node.recoverTree supplied = .ok value) ∨
      node.recoverTree supplied = .error .inconsistentShares :=
  (recover_cases supplied).1 node hvalid hsmall

end NetworkNode

theorem findShare_of_mem {shares : List NetworkShare} (hnodup : (shares.map Prod.fst).Nodup)
    {share : NetworkShare} (h : share ∈ shares) : findShare shares share.1 = some share.2 := by
  rw [findShare, find?_key Prod.fst hnodup h]
  rfl

theorem findShare_eq_none {shares : List NetworkShare} {id : UInt8}
    (h : id ∉ shares.map Prod.fst) : findShare shares id = none := by
  simp only [findShare, Option.map_eq_none_iff, List.find?_eq_none]
  exact fun share hshare he => h (List.mem_map.mpr ⟨share, hshare, by simpa using he⟩)

namespace ProductionPolicy

variable (policy : ProductionPolicy)

theorem size_le : policy.network.size ≤ 31 :=
  policy.wellFormed.small.trans (by decide)

theorem networkLeafIds_eq : policy.networkLeafIds = policy.network.leaves.map Prod.fst := by
  rw [networkLeafIds, policy.plan_eq]

theorem nodup_of_subperm {ids : List UInt8} (h : ids.Subperm policy.networkLeafIds) :
    ids.Nodup := by
  obtain ⟨l, hperm, hsub⟩ := h
  exact hperm.nodup_iff.mp (hsub.nodup policy.leafIds_nodup)

/-- Distinct known leaves pass the response check, so recovery is decided by the tree. -/
theorem recoverNetwork_of_subperm {supplied : List NetworkShare}
    (hids : (supplied.map Prod.fst).Subperm policy.networkLeafIds) :
    policy.recoverNetwork supplied =
      recoveryResult (policy.network.recoverTree (findShare supplied)) := by
  have hresponses := (NetworkPlan.responses_eq_ok policy.leafIds_nodup).mpr
    ⟨fun id hid => hids.subset hid, policy.nodup_of_subperm hids, rfl⟩
  simp only [recoverNetwork_eq, hresponses]

/-- A successful split names the leaves in order and shares its secret by its own
leaf values. -/
theorem splitNetwork_shared {ρ : Type} {rng : Sss.Rng ρ} {secret : Secret} {r r' : ρ}
    {shares : List NetworkShare} (h : policy.splitNetwork rng secret r = .ok (shares, r')) :
    shares.map Prod.fst = policy.networkLeafIds ∧
      policy.network.Shared (fun id => (findShare shares id).getD secret) secret := by
  rw [splitNetwork_eq] at h
  cases hsplit : policy.network.splitTree rng secret r with
  | error e => simp [hsplit] at h
  | ok out =>
    obtain rfl : out = (shares, r') := by simpa [hsplit] using h
    obtain ⟨hids, hshared⟩ := NetworkNode.split_shared.1 policy.network
      policy.wellFormed.thresholds policy.size_le secret r _ hsplit
    have hnodup : (shares.map Prod.fst).Nodup := by
      rw [hids, ← networkLeafIds_eq]
      exact policy.leafIds_nodup
    refine ⟨hids.trans policy.networkLeafIds_eq.symm, hshared _ fun share hshare => ?_⟩
    rw [findShare_of_mem hnodup hshare]
    rfl

/-- Some of the shares of a split, in any order, recover its secret exactly when their
leaves satisfy the tree. -/
theorem recoverNetwork_honest {ρ : Type} {rng : Sss.Rng ρ} {secret : Secret} {r r' : ρ}
    {shares : List NetworkShare} (hsplit : policy.splitNetwork rng secret r = .ok (shares, r'))
    {supplied : List NetworkShare}
    (hsub : (supplied.map Prod.fst).Subperm policy.networkLeafIds)
    (hmem : ∀ share ∈ supplied, share ∈ shares) :
    policy.recoverNetwork supplied =
      if policy.network.satisfied (fun id => decide (id ∈ supplied.map Prod.fst)) then .ok secret
      else .error (.error .factorsNotSatisfied) := by
  obtain ⟨hids, hshared⟩ := policy.splitNetwork_shared hsplit
  have hnodup : (shares.map Prod.fst).Nodup := hids ▸ policy.leafIds_nodup
  have hsupply : findShare supplied = NetworkNode.supplyHonest
      (fun id => decide (id ∈ supplied.map Prod.fst))
      (fun id => (findShare shares id).getD secret) := by
    funext id
    rw [NetworkNode.supplyHonest]
    by_cases hid : id ∈ supplied.map Prod.fst
    · obtain ⟨share, hshare, rfl⟩ := List.mem_map.mp hid
      rw [findShare_of_mem (policy.nodup_of_subperm hsub) hshare,
        findShare_of_mem hnodup (hmem share hshare), if_pos (decide_eq_true hid)]
      rfl
    · rw [findShare_eq_none hid, if_neg (by simpa using hid)]
  rw [policy.recoverNetwork_of_subperm hsub, hsupply,
    NetworkNode.recoverTree_honest policy.wellFormed.thresholds policy.size_le hshared]
  split_ifs <;> rfl

/-- Whatever bytes the generator fills in, splitting names the leaves in order,
and any of its shares in any order recover the secret exactly when their leaves
satisfy the tree. -/
theorem recoverNetwork_splitNetwork {ρ : Type} (rng : Sss.Rng ρ) (hfills : rng.Fills)
    (secret : Secret) (r : ρ) :
    ∃ shares r', policy.splitNetwork rng secret r = .ok (shares, r') ∧
      shares.map Prod.fst = policy.networkLeafIds ∧
      ∀ supplied : List NetworkShare, supplied.Subperm shares →
        policy.recoverNetwork supplied =
          if policy.network.satisfied (fun id => decide (id ∈ supplied.map Prod.fst)) then
            .ok secret
          else .error (.error .factorsNotSatisfied) := by
  obtain ⟨⟨shares, r'⟩, hok⟩ := (NetworkNode.split_ok hfills).1 policy.network
    policy.wellFormed.thresholds policy.size_le secret r
  have hsplit : policy.splitNetwork rng secret r = .ok (shares, r') := by
    rw [splitNetwork_eq, hok, Exec.lift_ok]
  have hids := (policy.splitNetwork_shared hsplit).1
  refine ⟨shares, r', hsplit, hids, fun supplied hsupplied => ?_⟩
  apply policy.recoverNetwork_honest hsplit
  · obtain ⟨l, hperm, hsub⟩ := hsupplied
    rw [← hids]
    exact ⟨l.map Prod.fst, hperm.map Prod.fst, hsub.map Prod.fst⟩
  · exact fun share hshare => hsupplied.subset hshare

/-- A generator that fills every request with one byte. -/
def constantRng (byte : UInt8) : Sss.Rng Unit := ⟨fun n _ => some (Vector.replicate n byte, ())⟩

/-- Two of a leaf, another leaf, and a group whose two leaves are both needed. -/
def trioPolicy : ProductionPolicy :=
  ofWellFormed .networkBound 1
    (.threshold 2 2 [.leaf 3 (Vector.replicate 32 7), .leaf 4 (Vector.replicate 32 8),
      .threshold 5 2 [.leaf 6 (Vector.replicate 32 9), .leaf 7 (Vector.replicate 32 10)]])
    (by decide)

/-- A leaf and the group recover the secret in reverse order; the group alone does not. -/
theorem recoverNetwork_splitNetwork_trio :
    ∃ shares, trioPolicy.splitNetwork (constantRng 5) (Vector.replicate 32 9) () =
        .ok (shares, ()) ∧
      trioPolicy.recoverNetwork (shares.drop 1).reverse = .ok (Vector.replicate 32 9) ∧
      trioPolicy.recoverNetwork (shares.drop 2) = .error (.error .factorsNotSatisfied) := by
  obtain ⟨shares, r', hsplit, hids, hrecover⟩ := recoverNetwork_splitNetwork trioPolicy
    (constantRng 5) (fun _ _ => rfl) (Vector.replicate 32 9) ()
  refine ⟨shares, hsplit, ?_, ?_⟩
  · rw [hrecover _ ((List.reverse_perm _).subperm.trans (List.drop_sublist 1 shares).subperm),
      List.map_reverse, List.map_drop, hids]
    rfl
  · rw [hrecover _ (List.drop_sublist 2 shares).subperm, List.map_drop, hids]
    rfl

/-- With tampered values beside untouched leaves that satisfy the tree, recovery
returns the secret or reports that shares disagree. -/
theorem recoverNetwork_tampered {ρ : Type} {rng : Sss.Rng ρ} {secret : Secret} {r r' : ρ}
    {shares : List NetworkShare} (hsplit : policy.splitNetwork rng secret r = .ok (shares, r'))
    (supplied : List NetworkShare)
    (hids : (supplied.map Prod.fst).Subperm policy.networkLeafIds) (tampered : UInt8 → Bool)
    (huntouched : ∀ share ∈ supplied, tampered share.1 = false → share ∈ shares)
    (hsatisfied : policy.network.satisfied
      (fun id => decide (id ∈ supplied.map Prod.fst) && !tampered id) = true) :
    policy.recoverNetwork supplied = .ok secret ∨
      policy.recoverNetwork supplied = .error (.error (.sharing .inconsistentShares)) := by
  obtain ⟨hshareIds, hshared⟩ := policy.splitNetwork_shared hsplit
  have hnodup : (shares.map Prod.fst).Nodup := hshareIds ▸ policy.leafIds_nodup
  have hhonest : ∀ id, (decide (id ∈ supplied.map Prod.fst) && !tampered id) = true →
      findShare supplied id = some ((findShare shares id).getD secret) := by
    intro id hid
    rw [Bool.and_eq_true, decide_eq_true_eq, Bool.not_eq_true'] at hid
    obtain ⟨hmem, hsafe⟩ := hid
    obtain ⟨share, hshare, rfl⟩ := List.mem_map.mp hmem
    rw [findShare_of_mem (policy.nodup_of_subperm hids) hshare,
      findShare_of_mem hnodup (huntouched share hshare hsafe)]
    rfl
  rw [policy.recoverNetwork_of_subperm hids]
  rcases NetworkNode.recoverTree_cases policy.wellFormed.thresholds policy.size_le
    (findShare supplied) with ⟨value, hvalue⟩ | herror
  · obtain rfl := NetworkNode.recoverTree_untouched policy.wellFormed.thresholds policy.size_le
      hshared hhonest hsatisfied hvalue
    exact .inl (by rw [hvalue]; rfl)
  · exact .inr (by rw [herror]; rfl)

/-- A forged share beside a quorum is found out. -/
theorem recoverNetwork_tampered_trio :
    trioPolicy.recoverNetwork [(7, Vector.replicate 32 12), (4, Vector.replicate 32 1),
        (6, Vector.replicate 32 3), (3, Vector.replicate 32 12)] =
      .error (.error (.sharing .inconsistentShares)) := by
  have hsplit : trioPolicy.splitNetwork (constantRng 5) (Vector.replicate 32 9) () =
      .ok ([(3, Vector.replicate 32 12), (4, Vector.replicate 32 3), (6, Vector.replicate 32 3),
        (7, Vector.replicate 32 12)], ()) := by
    decide +kernel
  refine (recoverNetwork_tampered trioPolicy hsplit _ ⟨[3, 4, 6, 7], by decide, ?_⟩
    (fun id => id == 4) (by decide) (by decide)).resolve_left (by decide +kernel)
  exact List.Sublist.refl _

end ProductionPolicy

end Leelo.Policy
