import Mathlib.Data.Nat.Bitwise
import Leelo.Core.Program
import Leelo.Crypto.Transparent
import Leelo.Engine.Providers

/-!
# The digest of selected PCRs

The adapter reads the selected PCRs one by one and compares the update counter of each
read with the one before. Other agents extend PCRs between the reads. While the counter
counts every change, a digest that is returned is that of one instant.
-/

namespace Leelo.Tpm

open Leelo.Core Leelo.Core.Fallible
open Leelo.Engine (EngineError)

/-- The algorithms of banks and names. -/
inductive HashingAlgorithm where
  | sha1
  | sha256
  | sha384
  | sha512
  | sm3
  | sha3_256
  | sha3_384
  | sha3_512
  | null
  deriving DecidableEq

/-- The number of a register. -/
abbrev PcrSlot := Fin 24

/-- The registers of one bank. -/
structure PcrSelection where
  algorithm : HashingAlgorithm
  slots : List PcrSlot
  deriving DecidableEq

/-- The registers of several banks. -/
abbrev PcrSelectionList := List PcrSelection

/-- An error of the TPM library with its debug text. -/
structure TssError where
  debug : String

/-- The library's error as the engine's. -/
def tssError (operation : String) (error : TssError) : EngineError := .tpm operation error.debug

/-- The bit of a PCR in a mask. -/
def bit (index : PcrSlot) : UInt32 := 1 <<< UInt32.ofNat index

/-- The constructors of the TPM library. -/
structure Tss where
  slot : UInt32 → Except TssError PcrSlot
  build : HashingAlgorithm → List PcrSlot → Except TssError PcrSelectionList

/-- Slots are named by their bits, and a built list holds the selection it was built with. -/
structure Tss.Specified (tss : Tss) : Prop where
  slot : ∀ value slot, tss.slot value = .ok slot → value = bit slot
  build : ∀ algorithm slots list, tss.build algorithm slots = .ok list → list = [⟨algorithm, slots⟩]

/-- Creation of a context and one PCR read. -/
inductive Op where
  | context
  | pcrRead (selection : PcrSelectionList)

/-- A read returns the update counter, the PCRs that were read, and their values. -/
abbrev Ans : Op → Type
  | .context => Except TssError Unit
  | .pcrRead _ => Except TssError (UInt32 × PcrSelectionList × List Bytes)

/-- The program of a reading. -/
abbrev Call (α : Type) := Fallible Op Ans EngineError α

/-- A single operation. -/
def call (op : Op) : Call (Ans op) := perform op

/-- A mask selects some of the first 24 registers, and no others. -/
def validateMask (mask : UInt32) : Except EngineError Unit :=
  if mask = 0 ∨ mask &&& 0xff000000 ≠ 0 then
    .error (.provider "PCR selection must use SHA256 PCRs 0 through 23")
  else .ok ()

/-- The selection of a mask. -/
def selection (tss : Tss) (mask : UInt32) : Except EngineError PcrSelectionList := do
  validateMask mask
  let indices := (List.finRange 24).filter fun index => mask &&& bit index ≠ 0
  let slots ← (indices.mapM fun index => tss.slot (bit index)).mapError (tssError "selection")
  (tss.build .sha256 slots).mapError (tssError "selection")

/-- The checks on one read: the requested PCR alone, and the counter of the read before. -/
def acceptRead (selected : PcrSelectionList) (counter : Option UInt32) (hash : Bytes)
    (current : UInt32) (returned : PcrSelectionList) (digests : List Bytes) :
    Except EngineError (UInt32 × Bytes) :=
  match digests with
  | [digest] =>
    if returned ≠ selected ∨ digest.length ≠ 32 then
      .error (.provider "selected SHA256 PCR is unavailable")
    else if counter.any (· ≠ current) then
      .error (.provider "PCR state changed during snapshot")
    else .ok (current, hash ++ digest)
  | _ => .error (.provider "selected SHA256 PCR is unavailable")

/-- Reads one register and adds it to the hash. -/
def readPcr (tss : Tss) (index : PcrSlot) (counter : Option UInt32) (hash : Bytes) :
    Call (UInt32 × Bytes) := do
  let selected ← ofResult (selection tss (bit index))
  let answer ← call (.pcrRead selected)
  let (current, returned, digests) ← ofResult (answer.mapError (tssError "pcr_digest"))
  ofResult (acceptRead selected counter hash current returned digests)

/-- The loop over the PCRs, with the last counter and the hashed text. -/
def readPcrs (tss : Tss) (mask : UInt32) :
    List PcrSlot → Option UInt32 → Bytes → Call Bytes
  | [], _, hash => pure hash
  | index :: rest, counter, hash =>
    if mask &&& bit index = 0 then readPcrs tss mask rest counter hash
    else do
      let (current, hash) ← readPcr tss index counter hash
      readPcrs tss mask rest (some current) hash

/-- The digest of the selected registers, read one by one. -/
def pcrDigest (tss : Tss) (sha256 : Bytes → Vector UInt8 32) (mask : UInt32) :
    Call (Vector UInt8 32) := do
  ofResult (validateMask mask)
  let answer ← call .context
  ofResult (answer.mapError (tssError "context"))
  let hash ← readPcrs tss mask (List.finRange 24) none []
  pure (sha256 hash)

/-- The PCR banks and their update counter at one instant. -/
structure Instant where
  counter : UInt32
  bank : HashingAlgorithm → PcrSlot → Bytes

/-- The module at each instant. -/
abbrev Timeline := Nat → Instant

/-- The present instant and the instants of the reads so far. -/
structure Clock where
  now : Nat
  reads : List Nat

/-- A read that succeeds returns the counter and the values of one instant. -/
def responds (timeline : Timeline) : Program.Behaviour Op Ans Clock
  | .context, s, _, s' => s' = s
  | .pcrRead _, s, answer, s' =>
    s' = ⟨s.now, s.reads ++ [s.now]⟩ ∧
      ∀ current returned digests, answer = .ok (current, returned, digests) →
        current = (timeline s.now).counter ∧
          digests = returned.flatMap fun selection =>
            selection.slots.map ((timeline s.now).bank selection.algorithm)

/-- Time passes between the calls. -/
def passes (s s' : Clock) : Prop := s.now ≤ s'.now ∧ s'.reads = s.reads

/-- The mask selects the register. -/
def selects (mask : UInt32) (index : PcrSlot) : Bool := mask.toNat.testBit index.val

/-- The PCRs that a mask selects, in increasing order. -/
def selectedPcrs (mask : UInt32) : List PcrSlot := (List.finRange 24).filter (selects mask)

/-- The values of the selected PCRs at an instant. -/
def snapshot (timeline : Timeline) (mask : UInt32) (t : Nat) : Bytes :=
  (selectedPcrs mask).flatMap ((timeline t).bank .sha256)

/-- A selected PCR changes after this instant. -/
def ChangesAt (timeline : Timeline) (mask : UInt32) (t : Nat) : Prop :=
  ∃ index ∈ selectedPcrs mask,
    (timeline t).bank .sha256 index ≠ (timeline (t + 1)).bank .sha256 index

/-- The update counter never decreases, and increases with every change of a selected PCR. -/
structure Counted (timeline : Timeline) (mask : UInt32) : Prop where
  mono : ∀ t, (timeline t).counter ≤ (timeline (t + 1)).counter
  strict : ∀ t, ChangesAt timeline mask t → (timeline t).counter < (timeline (t + 1)).counter

/-- The instants that follow each other. -/
def Timeline.Follows (timeline : Timeline) (i i' : Instant) : Prop :=
  ∃ t, i = timeline t ∧ i' = timeline (t + 1)

/-- The update counter never decreases, and increases with every change of a selected PCR,
whatever the changes are. -/
structure Counts (changes : Instant → Instant → Prop) (mask : UInt32) : Prop where
  mono : ∀ i i', changes i i' → i.counter ≤ i'.counter
  strict : ∀ i i', changes i i' →
    (∃ index ∈ selectedPcrs mask, i.bank .sha256 index ≠ i'.bank .sha256 index) →
      i.counter < i'.counter

namespace Counts

variable {changes : Instant → Instant → Prop} {mask : UInt32} {i i' : Instant}

theorem counter_le (h : Counts changes mask) (hpath : Relation.ReflTransGen changes i i') :
    i.counter ≤ i'.counter := by
  induction hpath with
  | refl => exact UInt32.le_refl _
  | tail _ hstep ih => exact UInt32.le_trans ih (h.mono _ _ hstep)

/-- Between two instants with one counter no selected PCR changes. -/
theorem same (h : Counts changes mask) (hpath : Relation.ReflTransGen changes i i')
    (hcounter : i.counter = i'.counter) {index : PcrSlot} (hindex : index ∈ selectedPcrs mask) :
    i'.bank .sha256 index = i.bank .sha256 index := by
  induction hpath with
  | refl => rfl
  | tail hpath hstep ih =>
    rename_i middle last
    have hmiddle : i.counter = middle.counter :=
      UInt32.le_antisymm (h.counter_le hpath) (hcounter ▸ h.mono _ _ hstep)
    rw [← ih hmiddle]
    by_contra hne
    have hstrict := h.strict _ _ hstep ⟨index, hindex, Ne.symm hne⟩
    rw [← hmiddle, hcounter] at hstrict
    exact absurd hstrict (UInt32.lt_irrefl _)

end Counts

namespace Counted

variable {timeline : Timeline} {mask : UInt32} {t u t' : Nat}

theorem counts (h : Counted timeline mask) : Counts timeline.Follows mask where
  mono := by
    rintro _ _ ⟨t, rfl, rfl⟩
    exact h.mono t
  strict := by
    rintro _ _ ⟨t, rfl, rfl⟩
    exact h.strict t

theorem path (timeline : Timeline) (hle : t ≤ t') :
    Relation.ReflTransGen timeline.Follows (timeline t) (timeline t') := by
  induction t', hle using Nat.le_induction with
  | base => exact .refl
  | succ u _ ih => exact ih.tail ⟨u, rfl, rfl⟩

theorem same (h : Counted timeline mask) (hle : t ≤ t')
    (hsame : (timeline t).counter = (timeline t').counter) {index : PcrSlot}
    (hindex : index ∈ selectedPcrs mask) :
    (timeline t).bank .sha256 index = (timeline t').bank .sha256 index :=
  (h.counts.same (path timeline hle) hsame hindex).symm

/-- Between two instants with one counter no selected PCR changes. -/
theorem not_changesAt (h : Counted timeline mask) (hle : t ≤ u) (hlt : u < t')
    (hsame : (timeline t).counter = (timeline t').counter) : ¬ChangesAt timeline mask u := by
  rintro ⟨index, hindex, hne⟩
  have hbefore := h.counts.counter_le (path timeline hle)
  have hafter := h.counts.counter_le (path timeline hlt)
  have hstep := h.mono u
  rw [← hsame] at hafter
  refine hne (h.same (Nat.le_succ u) (UInt32.le_antisymm hstep ?_) hindex)
  exact UInt32.le_trans hafter hbefore

end Counted

private theorem toNat_bit : ∀ index : PcrSlot, (bit index).toNat = 2 ^ index.val := by
  decide +kernel

/-- A bit of the mask is set. -/
theorem and_bit_ne_zero_iff (mask : UInt32) (index : PcrSlot) :
    mask &&& bit index ≠ 0 ↔ selects mask index = true := by
  rw [selects, Ne, ← UInt32.toNat_inj, UInt32.toNat_and, toNat_bit, Nat.and_two_pow]
  cases mask.toNat.testBit index with
  | false => simp
  | true => simp

theorem mem_selectedPcrs {mask : UInt32} {index : PcrSlot} :
    index ∈ selectedPcrs mask ↔ mask &&& bit index ≠ 0 := by
  rw [selectedPcrs, List.mem_filter, and_bit_ne_zero_iff]
  exact and_iff_right (List.mem_finRange index)

private theorem testBit_high : ∀ index < 32,
    (0xff000000 : UInt32).toNat.testBit index = decide (24 ≤ index) := by decide +kernel

private theorem testBit_eq_false {mask : UInt32} {index : Nat} (h : 32 ≤ index) :
    mask.toNat.testBit index = false :=
  Nat.testBit_lt_two_pow (mask.toNat_lt.trans_le (Nat.pow_le_pow_right (by decide) h))

/-- The high bits of a mask. -/
theorem and_high_ne_zero_iff (mask : UInt32) :
    mask &&& 0xff000000 ≠ 0 ↔ ∃ index ≥ 24, mask.toNat.testBit index = true := by
  rw [Ne, ← UInt32.toNat_inj, UInt32.toNat_and]
  constructor
  · intro h
    obtain ⟨index, hindex⟩ := Nat.exists_testBit_of_ne_zero h
    rw [Nat.testBit_and, Bool.and_eq_true] at hindex
    have hlt : index < 32 := by
      by_contra hge
      rw [testBit_eq_false (Nat.le_of_not_lt hge)] at hindex
      cases hindex.1
    rw [testBit_high index hlt] at hindex
    exact ⟨index, of_decide_eq_true hindex.2, hindex.1⟩
  · rintro ⟨index, hge, hindex⟩ hzero
    have hlt : index < 32 := by
      by_contra hge
      rw [testBit_eq_false (Nat.le_of_not_lt hge)] at hindex
      cases hindex
    have hboth := congrArg (Nat.testBit · index) hzero
    simp only [Nat.testBit_and, hindex, testBit_high index hlt, decide_eq_true hge] at hboth
    exact absurd hboth (by simp)

/-- A mask that is accepted selects a PCR. -/
theorem selectedPcrs_ne_nil {mask : UInt32} (h : validateMask mask = .ok ()) :
    selectedPcrs mask ≠ [] := by
  unfold validateMask at h
  split_ifs at h with hreject
  obtain ⟨hzero, hhigh⟩ := not_or.mp hreject
  have hne : mask.toNat ≠ 0 := fun h => hzero (UInt32.toNat_inj.mp h)
  obtain ⟨index, hindex⟩ := Nat.exists_testBit_of_ne_zero hne
  have hlt : index < 24 := by
    by_contra hge
    exact hhigh ((and_high_ne_zero_iff mask).mpr ⟨index, Nat.le_of_not_lt hge, hindex⟩)
  have hmem : (⟨index, hlt⟩ : PcrSlot) ∈ selectedPcrs mask :=
    List.mem_filter.mpr ⟨List.mem_finRange _, hindex⟩
  exact List.ne_nil_of_mem hmem

/-- A mask is rejected if it selects no PCR or a higher one than the last. -/
theorem validateMask_eq_error {mask : UInt32}
    (h : mask = 0 ∨ ∃ index ≥ 24, mask.toNat.testBit index = true) :
    validateMask mask = .error (.provider "PCR selection must use SHA256 PCRs 0 through 23") := by
  rw [← and_high_ne_zero_iff] at h
  exact if_pos h

private theorem filter_bit : ∀ index : PcrSlot,
    ((List.finRange 24).filter fun other => bit index &&& bit other ≠ 0) = [index] := by
  decide +kernel

theorem bit_injective : ∀ index other : PcrSlot, bit index = bit other → index = other := by
  decide +kernel

/-- The selection of a single PCR. -/
theorem selection_bit {tss : Tss} (htss : tss.Specified) {index : PcrSlot}
    {selected : PcrSelectionList} (h : selection tss (bit index) = .ok selected) :
    selected = [⟨.sha256, [index]⟩] := by
  obtain ⟨-, -, hrest⟩ := bind_eq_ok.mp h
  obtain ⟨slots, hslots, hbuild⟩ := bind_eq_ok.mp hrest
  have hread := mapError_eq_ok.mp hslots
  rw [filter_bit, List.mapM_cons] at hread
  obtain ⟨slot, hslot, htail⟩ := bind_eq_ok.mp hread
  obtain rfl : slots = [slot] := (Except.ok.inj htail).symm
  rw [htss.build _ _ _ (mapError_eq_ok.mp hbuild), bit_injective _ _ (htss.slot _ _ hslot)]

theorem acceptRead_eq_ok {selected : PcrSelectionList} {counter : Option UInt32}
    {hash hash' : Bytes} {current current' : UInt32} {returned : PcrSelectionList}
    {digests : List Bytes}
    (h : acceptRead selected counter hash current returned digests = .ok (current', hash')) :
    ∃ digest, digests = [digest] ∧ returned = selected ∧
      (∀ previous ∈ counter, previous = current) ∧ current' = current ∧ hash' = hash ++ digest := by
  unfold acceptRead at h
  split at h
  · split_ifs at h with hunavailable hchanged
    obtain ⟨hreturned, -⟩ := not_or.mp hunavailable
    cases h
    refine ⟨_, rfl, not_not.mp hreturned, fun previous hprevious => ?_, rfl, rfl⟩
    obtain rfl := hprevious
    simpa using hchanged
  · cases h

section Reads

variable {timeline : Timeline} {mask : UInt32} {tss : Tss} {s s' : Clock}

/-- What a read that is accepted has read. -/
theorem runs_readPcr (htss : tss.Specified) {index : PcrSlot} {counter : Option UInt32}
    {hash hash' : Bytes} {current : UInt32}
    (h : Runs (responds timeline) passes (readPcr tss index counter hash) s
      (.ok (current, hash')) s') :
    s.now ≤ s'.now ∧ s'.reads = s.reads ++ [s'.now] ∧
      current = (timeline s'.now).counter ∧ (∀ previous ∈ counter, previous = current) ∧
        hash' = hash ++ (timeline s'.now).bank .sha256 index := by
  obtain ⟨selected, s₁, hselected, hcalled⟩ := runs_bind_ok.mp h
  obtain ⟨hselection, rfl⟩ := runs_ofResult.mp hselected
  obtain ⟨answer, s₂, hread, hreturned⟩ := runs_bind_ok.mp hcalled
  obtain ⟨_, s₃, hanswer, ⟨hpass, hreads⟩, hresponds⟩ := runs_perform.mp hread
  cases hanswer
  obtain ⟨⟨current', returned, digests⟩, s₄, hanswered, haccepted⟩ := runs_bind_ok.mp hreturned
  obtain ⟨hok, rfl⟩ := runs_ofResult.mp hanswered
  obtain ⟨haccept, rfl⟩ := runs_ofResult.mp haccepted
  obtain ⟨rfl, hvalues⟩ := hresponds
  obtain ⟨hcounter, hdigests⟩ := hvalues _ _ _ (mapError_eq_ok.mp hok.symm)
  obtain rfl := selection_bit htss hselection.symm
  obtain ⟨digest, rfl, rfl, hprevious, rfl, rfl⟩ := acceptRead_eq_ok haccept.symm
  have hdigest : digest = (timeline s₃.now).bank .sha256 index := (List.cons.inj hdigests).1
  exact ⟨hpass, by rw [hreads], hcounter, hprevious, by rw [hdigest]⟩

/-- A loop that ends after a first read has read what stood there then. -/
theorem runs_readPcrs_some (htss : tss.Specified) (hcounted : Counted timeline mask)
    {indices : List PcrSlot} {hash hash' : Bytes} {t₀ : Nat} (hle : t₀ ≤ s.now)
    (h : Runs (responds timeline) passes
      (readPcrs tss mask indices (some (timeline t₀).counter) hash) s (.ok hash') s') :
    s.now ≤ s'.now ∧
      hash' = hash ++ (indices.filter (selects mask)).flatMap
        ((timeline t₀).bank .sha256) ∧
      ∃ reads, s'.reads = s.reads ++ reads ∧
        ∀ t ∈ reads, t₀ ≤ t ∧ (timeline t).counter = (timeline t₀).counter := by
  induction indices generalizing hash s with
  | nil =>
    obtain ⟨hhash, rfl⟩ := runs_pure.mp h
    exact ⟨Nat.le_refl _, by simpa using Except.ok.inj hhash, [], by simp, by simp⟩
  | cons index rest ih =>
    unfold readPcrs at h
    split_ifs at h with hskip
    · have hunselected : ¬selects mask index = true :=
        fun hbit => (and_bit_ne_zero_iff mask index).mpr hbit hskip
      rw [List.filter_cons_of_neg hunselected]
      exact ih hle h
    · obtain ⟨⟨current, hash₁⟩, s₁, hread, hrest⟩ := runs_bind_ok.mp h
      obtain ⟨hpass, hreads, rfl, hcounter, rfl⟩ := runs_readPcr htss hread
      have hsame : (timeline s₁.now).counter = (timeline t₀).counter :=
        (hcounter _ rfl).symm
      have hvalue := hcounted.same (hle.trans hpass) hsame.symm (mem_selectedPcrs.mpr hskip)
      rw [hsame] at hrest
      obtain ⟨hpass', hhash, reads, hreads', hcounters⟩ := ih (hle.trans hpass) hrest
      refine ⟨hpass.trans hpass', ?_, s₁.now :: reads, ?_, ?_⟩
      · rw [List.filter_cons_of_pos ((and_bit_ne_zero_iff mask index).mp hskip), List.flatMap_cons,
          ← List.append_assoc, hvalue, hhash]
      · rw [hreads', hreads, List.append_assoc, List.singleton_append]
      · exact List.forall_mem_cons.mpr ⟨⟨hle.trans hpass, hsame⟩, hcounters⟩

/-- A loop that ends has read what stood there at its first read. -/
theorem runs_readPcrs_none (htss : tss.Specified) (hcounted : Counted timeline mask)
    {indices : List PcrSlot} {hash' : Bytes}
    (hne : (indices.filter (selects mask)) ≠ [])
    (h : Runs (responds timeline) passes (readPcrs tss mask indices none []) s (.ok hash') s') :
    ∃ t₀, s.now ≤ t₀ ∧ t₀ ≤ s'.now ∧
      hash' = (indices.filter (selects mask)).flatMap
        ((timeline t₀).bank .sha256) ∧
      ∃ reads, s'.reads = s.reads ++ reads ∧
        ∀ t ∈ reads, t₀ ≤ t ∧ (timeline t).counter = (timeline t₀).counter := by
  induction indices with
  | nil => exact absurd rfl hne
  | cons index rest ih =>
    unfold readPcrs at h
    split_ifs at h with hskip
    · have hunselected : ¬selects mask index = true :=
        fun hbit => (and_bit_ne_zero_iff mask index).mpr hbit hskip
      rw [List.filter_cons_of_neg hunselected] at hne ⊢
      exact ih hne h
    · obtain ⟨⟨current, hash₁⟩, s₁, hread, hrest⟩ := runs_bind_ok.mp h
      obtain ⟨hpass, hreads, rfl, -, rfl⟩ := runs_readPcr htss hread
      obtain ⟨hpass', hhash, reads, hreads', hcounters⟩ :=
        runs_readPcrs_some htss hcounted (Nat.le_refl _) hrest
      refine ⟨s₁.now, hpass, hpass', ?_, s₁.now :: reads, ?_, ?_⟩
      · rw [List.filter_cons_of_pos ((and_bit_ne_zero_iff mask index).mp hskip), List.flatMap_cons,
          hhash, List.nil_append]
      · rw [hreads', hreads, List.append_assoc, List.singleton_append]
      · exact List.forall_mem_cons.mpr ⟨⟨Nat.le_refl _, rfl⟩, hcounters⟩

end Reads

/-- A library that names the slots of single bits. -/
def slotTss : Tss where
  slot value := match (List.finRange 24).find? fun index => bit index = value with
    | some slot => .ok slot
    | none => .error ⟨"invalid slot"⟩
  build algorithm slots := .ok [⟨algorithm, slots⟩]

theorem slotTss_specified : slotTss.Specified where
  slot value slot h := by
    cases hfound : (List.finRange 24).find? fun index => bit index = value with
    | none =>
      simp only [slotTss, hfound] at h
      cases h
    | some found =>
      simp only [slotTss, hfound] at h
      cases h
      have hbit := List.find?_some hfound
      exact (of_decide_eq_true hbit).symm
  build algorithm slots list h := (Except.ok.inj h).symm

/-- A TPM that answers every call at the next instant. -/
def paced (timeline : Timeline) : (op : Op) → Clock → Ans op × Clock
  | .context, s => (.ok (), ⟨s.now + 1, s.reads⟩)
  | .pcrRead selection, s =>
    (.ok ((timeline (s.now + 1)).counter, selection, selection.flatMap fun part =>
      part.slots.map ((timeline (s.now + 1)).bank part.algorithm)),
      ⟨s.now + 1, s.reads ++ [s.now + 1]⟩)

theorem paced_responds (timeline : Timeline) (op : Op) (s : Clock) : ∃ s₁, passes s s₁ ∧
    responds timeline op s₁ (paced timeline op s).1 (paced timeline op s).2 := by
  refine ⟨⟨s.now + 1, s.reads⟩, ⟨Nat.le_succ _, rfl⟩, ?_⟩
  cases op with
  | context => rfl
  | pcrRead selection =>
    refine ⟨rfl, fun current returned digests h => ?_⟩
    cases h
    exact ⟨rfl, rfl⟩

/-- PCRs that hold their own index until the first one is extended at the third instant. -/
def extendedOnce : Timeline := fun t =>
  if t < 3 then ⟨7, fun _ index => List.replicate 32 (UInt8.ofNat index)⟩
  else ⟨8, fun _ index => List.replicate 32 (if index = 0 then 255 else UInt8.ofNat index)⟩

theorem extendedOnce_counted (mask : UInt32) : Counted extendedOnce mask where
  mono t := by
    by_cases hlast : t + 1 < 3
    · rw [extendedOnce, extendedOnce, if_pos (Nat.lt_of_succ_lt hlast), if_pos hlast]
      exact UInt32.le_refl _
    · rw [extendedOnce, extendedOnce, if_neg hlast]
      split_ifs <;> decide
  strict t := by
    rintro ⟨index, -, hne⟩
    rcases Nat.lt_trichotomy t 2 with hlt | rfl | hgt
    · rw [extendedOnce, extendedOnce, if_pos (by omega), if_pos (by omega)] at hne
      exact absurd rfl hne
    · decide
    · rw [extendedOnce, extendedOnce, if_neg (by omega), if_neg (by omega)] at hne
      exact absurd rfl hne

/-- A digest that is returned is that of the selected PCRs at one instant during the call. A
change of a selected PCR between two reads ends in an error, and a mask that selects no PCR
or one beyond the last is rejected before the TPM is accessed. -/
theorem pcrDigest_consistent (tss : Tss) (htss : tss.Specified) (sha256 : Bytes → Vector UInt8 32)
    (mask : UInt32) :
    (mask = 0 ∨ (∃ index ≥ 24, mask.toNat.testBit index = true) →
      pcrDigest tss sha256 mask =
        ofResult (.error (.provider "PCR selection must use SHA256 PCRs 0 through 23"))) ∧
    ∀ (timeline : Timeline), Counted timeline mask → ∀ s s' result,
      Runs (responds timeline) passes (pcrDigest tss sha256 mask) s result s' →
        (∀ digest, result = .ok digest →
          ∃ t, s.now ≤ t ∧ t ≤ s'.now ∧ digest = sha256 (snapshot timeline mask t)) ∧
        ∀ reads, s'.reads = s.reads ++ reads → ∀ t ∈ reads, ∀ t' ∈ reads, ∀ u, t ≤ u → u < t' →
          ChangesAt timeline mask u → ∃ error, result = .error error := by
  refine ⟨fun hmask => ?_, ?_⟩
  · rw [pcrDigest, validateMask_eq_error hmask]
    rfl
  intro timeline hcounted s s' result h
  have hok : ∀ digest, result = .ok digest → ∃ t, s.now ≤ t ∧ t ≤ s'.now ∧
      digest = sha256 (snapshot timeline mask t) ∧ ∃ reads, s'.reads = s.reads ++ reads ∧
        ∀ t' ∈ reads, t ≤ t' ∧ (timeline t').counter = (timeline t).counter := by
    rintro digest rfl
    obtain ⟨_, s₁, hvalidated, hcalled⟩ := runs_bind_ok.mp h
    obtain ⟨hvalid, rfl⟩ := runs_ofResult.mp hvalidated
    obtain ⟨answer, s₂, hcontext, hanswered⟩ := runs_bind_ok.mp hcalled
    obtain ⟨_, s₃, -, ⟨hpass, hreads⟩, hresponds⟩ := runs_perform.mp hcontext
    obtain rfl : s₂ = s₃ := hresponds
    obtain ⟨_, s₄, hcreated, hlooped⟩ := runs_bind_ok.mp hanswered
    obtain ⟨-, rfl⟩ := runs_ofResult.mp hcreated
    obtain ⟨hash, s₅, hloop, hended⟩ := runs_bind_ok.mp hlooped
    obtain ⟨hdigest, rfl⟩ := runs_pure.mp hended
    obtain ⟨t, hle, hle', rfl, reads, hnew, hcounters⟩ :=
      runs_readPcrs_none htss hcounted (selectedPcrs_ne_nil hvalid.symm) hloop
    exact ⟨t, hpass.trans hle, hle', Except.ok.inj hdigest, reads, by rw [hnew, hreads], hcounters⟩
  refine ⟨fun digest hdigest => ?_, ?_⟩
  · obtain ⟨t, hle, hle', hsnapshot, -⟩ := hok digest hdigest
    exact ⟨t, hle, hle', hsnapshot⟩
  · intro reads hreads t ht t' ht' u htu hut hchange
    cases result with
    | error error => exact ⟨error, rfl⟩
    | ok digest =>
      obtain ⟨t₀, -, -, -, reads', hreads', hcounters⟩ := hok digest rfl
      obtain rfl := List.append_cancel_left (hreads.symm.trans hreads')
      have hsame := (hcounters t ht).2.trans (hcounters t' ht').2.symm
      exact absurd hchange (hcounted.not_changesAt htu hut hsame)

/-- Two PCRs are read while the first is extended, and read again afterwards. -/
theorem pcrDigest_consistent_extended : ∃ error s₁ digest s₂,
    Runs (responds extendedOnce) passes (pcrDigest slotTss (Crypto.firstBytes 32) 5) ⟨0, []⟩
      (.error error) s₁ ∧
    Runs (responds extendedOnce) passes (pcrDigest slotTss (Crypto.firstBytes 32) 5) s₁
      (.ok digest) s₂ ∧
    ∃ t, s₁.now ≤ t ∧ t ≤ s₂.now ∧
      digest = Crypto.firstBytes 32 (snapshot extendedOnce 5 t) := by
  have hruns := Program.runs_runWith (paced_responds extendedOnce)
    (pcrDigest slotTss (Crypto.firstBytes 32) 5)
  have hmain := (pcrDigest_consistent slotTss slotTss_specified (Crypto.firstBytes 32) 5).2
    extendedOnce (extendedOnce_counted 5)
  obtain ⟨error, herror⟩ := (hmain _ _ _ (hruns ⟨0, []⟩)).2 [2, 3] (by decide +kernel) 2 (by decide)
    3 (by decide) 2 (Nat.le_refl 2) (by decide) ⟨0, by decide +kernel, by decide⟩
  have hfirst := hruns ⟨0, []⟩
  rw [herror] at hfirst
  have hok : ((pcrDigest slotTss (Crypto.firstBytes 32) 5).runWith (paced extendedOnce)
      ((pcrDigest slotTss (Crypto.firstBytes 32) 5).runWith (paced extendedOnce)
        ⟨0, []⟩).2).1.isOk = true := by
    decide +kernel
  obtain ⟨digest, hdigest⟩ := isOk_eq_true_iff.mp hok
  have hsecond := hruns ((pcrDigest slotTss (Crypto.firstBytes 32) 5).runWith
    (paced extendedOnce) ⟨0, []⟩).2
  rw [hdigest] at hsecond
  exact ⟨error, _, digest, _, hfirst, hsecond, (hmain _ _ _ hsecond).1 digest rfl⟩

end Leelo.Tpm
