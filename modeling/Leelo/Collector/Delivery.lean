import Leelo.Collector.Accounting
import Leelo.Telemetry.Emitter
import Mathlib.Algebra.Order.BigOperators.Group.Finset

/-!
# Delivery from emitters to the collector

Threads share emitters and emit in any interleaving. A datagram that was sent reaches the
collector any number of times and at any later time, or never. The drops that the collector
reports are bounded by those that the emitters counted.
-/

namespace Leelo.Collector

open Leelo.Core Leelo.Telemetry

/-- An emitter in a process. -/
structure Sender where
  emitter : Emitter
  uid : UInt32
  pid : UInt32

/-- The counters of an emitter; the sequence wraps when it is read. -/
structure Counters where
  sequence : Nat
  dropped : UInt64

/-- One more, up to the largest word. -/
def saturatingSucc (value : UInt64) : UInt64 :=
  if value.toNat < maxU64 then value + 1 else value

/-- The emitters' counters, the datagrams that were sent and the events that the collector
received. -/
structure World (ε : Type) where
  counters : ε → Counters
  sent : List (ε × Record)
  calls : List Received

/-- The counters at zero and nothing under way. -/
def World.initial (ε : Type) : World ε := ⟨fun _ => ⟨0, 0⟩, [], []⟩

/-- The collector after the calls so far. -/
def World.collector {ε : Type} (w : World ε) : Metrics := Metrics.new.acceptAll w.calls

/-- Changes the counters of one emitter. -/
def World.setCounters {ε : Type} [DecidableEq ε] (w : World ε) (e : ε) (counters : Counters) :
    World ε :=
  { w with counters := Function.update w.counters e counters }

variable {ε ι : Type} {senders : ε → Sender} {owner : ι → ε}

/-- The atomic operations of an emitter. -/
inductive Responds [DecidableEq ε] (e : ε) : Program.Behaviour EmitOp EmitOp.Ans (World ε)
  | fetchSequence (w : World ε) :
      Responds e .fetchSequence w (UInt64.ofNat (w.counters e).sequence)
        (w.setCounters e ⟨(w.counters e).sequence + 1, (w.counters e).dropped⟩)
  | now (w : World ε) (time : Option UInt64) : Responds e .now w time w
  | loadDropped (w : World ε) (value : UInt64) (h : value ≤ (w.counters e).dropped) :
      Responds e .loadDropped w value w
  | sent (w : World ε) (record : Record) :
      Responds e (.send record) w true { w with sent := w.sent ++ [(e, record)] }
  | notSent (w : World ε) (record : Record) : Responds e (.send record) w false w
  | countDrop (w : World ε) :
      Responds e .countDrop w ()
        (w.setCounters e ⟨(w.counters e).sequence, saturatingSucc (w.counters e).dropped⟩)

/-- What the collector receives of a record. -/
def Sender.received (sender : Sender) (record : Record) (receivedAtMs : UInt64) : Received :=
  ⟨sender.uid, sender.pid, receivedAtMs, record⟩

/-- The collector receives some datagram that was sent. -/
inductive Delivers (senders : ε → Sender) : World ε → World ε → Prop
  | deliver {w : World ε} {e : ε} {record : Record} (receivedAtMs : UInt64)
      (hsent : (e, record) ∈ w.sent) :
      Delivers senders w
        { w with calls := w.calls ++ [(senders e).received record receivedAtMs] }

/-- Clients at their emitters, before anything was sent. -/
def system (senders : ε → Sender) (owner : ι → ε) (printDouble : F64 → Bytes)
    (clients : ι → Client) : System ι EmitOp EmitOp.Ans Unit (World ε) :=
  ⟨fun i => (clients i).run (senders (owner i)).emitter printDouble, World.initial ε⟩

/-- No two emitters have the same attempt. -/
def DistinctAttempts (senders : ε → Sender) : Prop :=
  ∀ e e', (senders e).emitter.attemptId.isSome = true →
    (senders e).emitter.attemptId = (senders e').emitter.attemptId → e = e'

/-- Every datagram carries the attempt of its emitter and no more drops than the emitter has
counted, and every event that was received is a datagram. -/
structure Truthful (senders : ε → Sender) (w : World ε) : Prop where
  sent : ∀ entry ∈ w.sent, (senders entry.1).emitter.attemptId.isSome = true ∧
    entry.2.attemptId = (senders entry.1).emitter.attemptId ∧
    entry.2.droppedBefore ≤ (w.counters entry.1).dropped
  calls : ∀ received ∈ w.calls, ∃ entry ∈ w.sent, received.sourceUid = (senders entry.1).uid ∧
    received.record = entry.2

/-- The count that a thread has loaded is not larger than the counter. -/
def Loaded (senders : ε → Sender) (owner : ι → ε) (i : ι) (w : World ε)
    (p : Program EmitOp EmitOp.Ans Unit) : Prop :=
  ∃ loaded pending, loaded ≤ (w.counters (owner i)).dropped ∧
    Emits (senders (owner i)).emitter.attemptId p loaded pending

/-- The count never falls. -/
theorem le_saturatingSucc (value : UInt64) : value ≤ saturatingSucc value := by
  unfold saturatingSucc
  split_ifs with h
  · rw [UInt64.le_iff_toNat_le, UInt64.toNat_add]
    unfold maxU64 at h
    have hone : (1 : UInt64).toNat = 1 := rfl
    omega
  · exact UInt64.le_refl _

variable {w w' : World ε}

/-- The counters of drops only grow. -/
theorem Responds.dropped_le [DecidableEq ε] {e : ε} {op : EmitOp} {answer : op.Ans}
    (h : Responds e op w answer w') (e' : ε) :
    (w.counters e').dropped ≤ (w'.counters e').dropped := by
  cases h with
  | fetchSequence =>
    by_cases he : e' = e
    · subst he
      simp only [World.setCounters, Function.update_self]
      exact UInt64.le_refl _
    · simp only [World.setCounters, Function.update_of_ne he]
      exact UInt64.le_refl _
  | countDrop =>
    by_cases he : e' = e
    · subst he
      simp only [World.setCounters, Function.update_self]
      exact le_saturatingSucc _
    · simp only [World.setCounters, Function.update_of_ne he]
      exact UInt64.le_refl _
  | now => exact UInt64.le_refl _
  | loadDropped => exact UInt64.le_refl _
  | sent => exact UInt64.le_refl _
  | notSent => exact UInt64.le_refl _

theorem Loaded.mono {i : ι} {p : Program EmitOp EmitOp.Ans Unit} (h : Loaded senders owner i w p)
    (hle : (w.counters (owner i)).dropped ≤ (w'.counters (owner i)).dropped) :
    Loaded senders owner i w' p := by
  obtain ⟨loaded, pending, hloaded, hemits⟩ := h
  exact ⟨loaded, pending, UInt64.le_trans hloaded hle, hemits⟩

/-- The datagrams stay truthful while the counters grow. -/
theorem Truthful.mono (h : Truthful senders w) (hsent : w'.sent = w.sent)
    (hcalls : w'.calls = w.calls) (hle : ∀ e, (w.counters e).dropped ≤ (w'.counters e).dropped) :
    Truthful senders w' := by
  refine ⟨fun entry hentry => ?_, fun received hreceived => ?_⟩
  · rw [hsent] at hentry
    obtain ⟨hsome, hid, hdropped⟩ := h.sent entry hentry
    exact ⟨hsome, hid, UInt64.le_trans hdropped (hle entry.1)⟩
  · rw [hcalls] at hreceived
    rw [hsent]
    exact h.calls received hreceived

/-- An operation of an emitter keeps the reports truthful. -/
theorem Truthful.call [DecidableEq ε] {i : ι} {op : EmitOp} {answer : op.Ans}
    {next : op.Ans → Program EmitOp EmitOp.Ans Unit} (h : Truthful senders w)
    (hloaded : Loaded senders owner i w (.call op next))
    (hresponds : Responds (owner i) op w answer w') :
    Truthful senders w' ∧ Loaded senders owner i w' (next answer) := by
  have hle := hresponds.dropped_le
  obtain ⟨loaded, pending, hbound, hemits⟩ := hloaded
  cases hresponds with
  | fetchSequence =>
    exact ⟨h.mono rfl rfl hle, loaded, _, UInt64.le_trans hbound (hle _), hemits _⟩
  | now => exact ⟨h, loaded, _, hbound, hemits _⟩
  | loadDropped _ _ hvalue => exact ⟨h, _, _, hvalue, hemits _⟩
  | sent =>
    obtain ⟨hid, hsome, hdropped, -, hnext⟩ := hemits
    refine ⟨⟨fun entry hentry => ?_, fun received hreceived => ?_⟩, loaded, _, hbound, hnext _⟩
    · rcases List.mem_append.mp hentry with hentry | hentry
      · exact h.sent entry hentry
      · cases List.mem_singleton.mp hentry
        exact ⟨hsome, hid, hdropped ▸ hbound⟩
    · obtain ⟨entry, hentry, heq⟩ := h.calls received hreceived
      exact ⟨entry, List.mem_append_left _ hentry, heq⟩
  | notSent => exact ⟨h, loaded, _, hbound, hemits.2.2.2.2 _⟩
  | countDrop => exact ⟨h.mono rfl rfl hle, loaded, _, UInt64.le_trans hbound (hle _), hemits _⟩

theorem Truthful.deliver (h : Truthful senders w) (hdelivers : Delivers senders w w') :
    Truthful senders w' := by
  cases hdelivers with
  | deliver receivedAtMs hsent =>
    refine ⟨h.sent, fun received hreceived => ?_⟩
    rcases List.mem_append.mp hreceived with hreceived | hreceived
    · exact h.calls received hreceived
    · cases List.mem_singleton.mp hreceived
      exact ⟨_, hsent, rfl, rfl⟩

section Runs

variable [DecidableEq ε] [DecidableEq ι] {printDouble : F64 → Bytes} {clients : ι → Client}
  {c : System ι EmitOp EmitOp.Ans Unit (World ε)}

theorem truthful_of_reaches
    (h : System.Reaches (fun i => Responds (owner i)) (Delivers senders)
      (system senders owner printDouble clients) c) : Truthful senders c.state := by
  refine (System.Reaches.invariant (Truthful senders) (Loaded senders owner) ?_ ?_ ?_ ?_ ?_ h).1
  · exact fun hinv hloaded hresponds => hinv.call hloaded hresponds
  · exact fun _ _ hresponds hloaded => hloaded.mono (hresponds.dropped_le _)
  · intro w w' hinv hdelivers
    refine ⟨hinv.deliver hdelivers, fun i p hloaded => ?_⟩
    cases hdelivers
    exact hloaded
  · exact ⟨fun _ hmem => absurd hmem List.not_mem_nil, fun _ hmem => absurd hmem List.not_mem_nil⟩
  · exact fun i => ⟨0, none, UInt64.le_refl _, emits_run (clients i) 0 none⟩

/-- The collector never loses a call. -/
theorem calls_of_reaches {c' : System ι EmitOp EmitOp.Ans Unit (World ε)}
    (h : System.Reaches (fun i => Responds (owner i)) (Delivers senders) c c') :
    ∃ calls, c'.state.calls = c.state.calls ++ calls := by
  refine (System.Reaches.invariant (fun w => ∃ calls, w.calls = c.state.calls ++ calls)
    (fun _ _ _ => True) ?_ ?_ ?_ ⟨[], (List.append_nil _).symm⟩ (fun _ => trivial) h).1
  · intro i op next w answer w' hcalls _ hresponds
    refine ⟨?_, trivial⟩
    cases hresponds with
    | fetchSequence => exact hcalls
    | now => exact hcalls
    | loadDropped => exact hcalls
    | sent => exact hcalls
    | notSent => exact hcalls
    | countDrop => exact hcalls
  · exact fun _ _ _ _ => trivial
  · rintro w w' ⟨calls, hcalls⟩ hdelivers
    refine ⟨?_, fun _ _ => id⟩
    cases hdelivers with
    | deliver =>
      dsimp only
      rw [hcalls, List.append_assoc]
      exact ⟨_, rfl⟩

end Runs

theorem mem_of_mem_taken {m : Metrics} {calls : List Received} {received : Received}
    (h : received ∈ m.taken calls) : received ∈ calls := by
  induction calls generalizing m with
  | nil => exact h
  | cons first rest ih =>
    rw [Metrics.taken] at h
    split_ifs at h
    · rcases List.mem_cons.mp h with rfl | h
      · exact List.mem_cons_self
      · exact List.mem_cons_of_mem _ (ih h)
    · exact List.mem_cons_of_mem _ (ih h)

/-- The emitter of the attempt of an event that was received. -/
theorem Truthful.origin (h : Truthful senders w) {received : Received}
    (hreceived : received ∈ w.calls) {attempt : AttemptId}
    (hid : received.attemptId = some attempt) :
    ∃ e, (senders e).uid = attempt.1 ∧ (senders e).emitter.attemptId = some attempt.2 ∧
      received.record.droppedBefore ≤ (w.counters e).dropped := by
  obtain ⟨⟨e, record⟩, hentry, huid, hrecord⟩ := h.calls received hreceived
  obtain ⟨-, hattempt, hdropped⟩ := h.sent _ hentry
  rw [Received.attemptId, Option.map_eq_some_iff] at hid
  obtain ⟨id, hid, rfl⟩ := hid
  rw [hrecord] at hid ⊢
  exact ⟨e, huid.symm, hattempt.symm.trans hid, hdropped⟩

/-- The loss reported is at most the loss there was. -/
theorem Truthful.reportedLoss_le [Fintype ε] [DecidableEq ε] (h : Truthful senders w)
    (hdistinct : DistinctAttempts senders) {events : List Received}
    (hevents : ∀ received ∈ events, received ∈ w.calls) :
    reportedLoss events ≤ ∑ e, (w.counters e).dropped.toNat := by
  have horigin : ∀ attempt : attemptsOf events, ∃ e, (senders e).uid = attempt.1.1 ∧
      (senders e).emitter.attemptId = some attempt.1.2 ∧
      largestDrop events attempt.1 ≤ (w.counters e).dropped.toNat := by
    rintro ⟨attempt, hmem⟩
    obtain ⟨received, hreceived, hid⟩ := mem_attemptsOf.mp hmem
    obtain ⟨e, huid, hattempt, -⟩ := h.origin (hevents received hreceived) hid
    refine ⟨e, huid, hattempt, largestDrop_le fun other hother hotherId => ?_⟩
    -- every event of the attempt comes from the same emitter
    obtain ⟨e', -, hattempt', hdropped⟩ := h.origin (hevents other hother) hotherId
    have hsame : e = e' := by
      refine hdistinct e e' ?_ (hattempt.trans hattempt'.symm)
      rw [hattempt]
      rfl
    rw [hsame]
    exact hdropped
  choose origin huid hattempt hlargest using horigin
  have hinjective : Function.Injective origin := by
    intro attempt attempt' heq
    refine Subtype.ext (Prod.ext ?_ ?_)
    · rw [← huid attempt, ← huid attempt', heq]
    · have hid := (hattempt attempt).symm.trans ((congrArg (fun e => (senders e).emitter.attemptId)
        heq).trans (hattempt attempt'))
      exact Option.some.inj hid
  calc reportedLoss events
      = ∑ attempt ∈ (attemptsOf events).attach, largestDrop events attempt.1 :=
        (Finset.sum_attach _ _).symm
    _ ≤ ∑ attempt ∈ (attemptsOf events).attach, (w.counters (origin attempt)).dropped.toNat :=
        Finset.sum_le_sum fun attempt _ => hlargest attempt
    _ = ∑ e ∈ (attemptsOf events).attach.image origin, (w.counters e).dropped.toNat :=
        (Finset.sum_image (f := fun e => (w.counters e).dropped.toNat)
          fun _ _ _ _ heq => hinjective heq).symm
    _ ≤ ∑ e, (w.counters e).dropped.toNat :=
        Finset.sum_le_sum_of_subset (Finset.subset_univ _)

section Sequential

variable [DecidableEq ε] {e : ε}

/-- The numbers of the datagrams of an emitter, in the order in which they were sent. -/
def World.numbers (w : World ε) (e : ε) : List UInt64 :=
  (w.sent.filter (·.1 = e)).map (·.2.sequence)

/-- Until the sequence wraps, the numbers that were sent increase and come from it. -/
def Increasing (e : ε) (w : World ε) : Prop :=
  (w.counters e).sequence ≤ 2 ^ 64 → (w.numbers e).Pairwise (· < ·) ∧
    ∀ number ∈ w.numbers e, number.toNat < (w.counters e).sequence

/-- The number that the thread of the emitter holds is larger than all that were sent. -/
def Numbered (senders : ε → Sender) (owner : ι → ε) (e : ε) (i : ι) (w : World ε)
    (p : Program EmitOp EmitOp.Ans Unit) : Prop :=
  owner i = e → (w.counters e).sequence ≤ 2 ^ 64 →
    ∃ loaded pending, Emits (senders e).emitter.attemptId p loaded pending ∧
      ∀ number, pending = some number → number.toNat < (w.counters e).sequence ∧
        ∀ earlier ∈ w.numbers e, earlier < number

variable {w w' : World ε}

/-- The operations of another emitter. -/
theorem Responds.other {e' : ε} {op : EmitOp} {answer : op.Ans} (h : Responds e' op w answer w')
    (hne : e ≠ e') :
    w'.counters e = w.counters e ∧ w'.numbers e = w.numbers e := by
  cases h with
  | fetchSequence => exact ⟨Function.update_of_ne hne _ _, rfl⟩
  | now => exact ⟨rfl, rfl⟩
  | loadDropped => exact ⟨rfl, rfl⟩
  | sent =>
    refine ⟨rfl, ?_⟩
    rw [World.numbers, List.filter_append, List.filter_cons_of_neg (by simpa using hne.symm),
      List.filter_nil, List.append_nil]
    rfl
  | notSent => exact ⟨rfl, rfl⟩
  | countDrop => exact ⟨Function.update_of_ne hne _ _, rfl⟩

theorem Increasing.congr (h : Increasing e w) (hcounters : w'.counters e = w.counters e)
    (hnumbers : w'.numbers e = w.numbers e) :
    Increasing e w' := by
  unfold Increasing
  rw [hcounters, hnumbers]
  exact h

theorem Numbered.congr {i : ι} {p : Program EmitOp EmitOp.Ans Unit}
    (h : Numbered senders owner e i w p) (hcounters : w'.counters e = w.counters e)
    (hnumbers : w'.numbers e = w.numbers e) : Numbered senders owner e i w' p := by
  unfold Numbered
  rw [hcounters, hnumbers]
  exact h

/-- An operation of the only thread of the emitter. -/
theorem Increasing.call {i : ι} {op : EmitOp} {answer : op.Ans}
    {next : op.Ans → Program EmitOp EmitOp.Ans Unit} (h : Increasing e w) (howner : owner i = e)
    (hnumbered : Numbered senders owner e i w (.call op next))
    (hresponds : Responds e op w answer w') :
    Increasing e w' ∧ Numbered senders owner e i w' (next answer) := by
  cases hresponds with
  | fetchSequence =>
    have hcounters : (w.setCounters e ⟨(w.counters e).sequence + 1,
        (w.counters e).dropped⟩).counters e = ⟨(w.counters e).sequence + 1,
          (w.counters e).dropped⟩ := Function.update_self ..
    unfold Increasing Numbered
    rw [hcounters]
    dsimp only
    refine ⟨fun hwrap => ?_, fun _ hwrap => ?_⟩
    · obtain ⟨hpairwise, hbelow⟩ := h (Nat.le_of_succ_le hwrap)
      exact ⟨hpairwise, fun number hmem => Nat.lt_succ_of_lt (hbelow number hmem)⟩
    · obtain ⟨-, hbelow⟩ := h (Nat.le_of_succ_le hwrap)
      obtain ⟨loaded, pending, hemits, -⟩ := hnumbered howner (Nat.le_of_succ_le hwrap)
      have hnumber : (UInt64.ofNat (w.counters e).sequence).toNat = (w.counters e).sequence :=
        UInt64.toNat_ofNat_of_lt' hwrap
      refine ⟨loaded, _, hemits _, ?_⟩
      rintro _ ⟨⟩
      refine ⟨by rw [hnumber]; exact Nat.lt_succ_self _, fun earlier hmem => ?_⟩
      rw [UInt64.lt_iff_toNat_lt, hnumber]
      exact hbelow earlier hmem
  | now =>
    refine ⟨h, fun _ hwrap => ?_⟩
    obtain ⟨loaded, pending, hemits, hpending⟩ := hnumbered howner hwrap
    exact ⟨loaded, pending, hemits _, hpending⟩
  | loadDropped =>
    refine ⟨h, fun _ hwrap => ?_⟩
    obtain ⟨loaded, pending, hemits, hpending⟩ := hnumbered howner hwrap
    exact ⟨_, pending, hemits _, hpending⟩
  | sent _ record =>
    have hnumbers : World.numbers { w with sent := w.sent ++ [(e, record)] } e =
        w.numbers e ++ [record.sequence] := by
      rw [World.numbers, List.filter_append, List.map_append,
        List.filter_cons_of_pos (by simp), List.filter_nil]
      rfl
    unfold Increasing Numbered
    rw [hnumbers]
    refine ⟨fun hwrap => ?_, fun _ hwrap => ?_⟩
    · obtain ⟨hpairwise, hbelow⟩ := h hwrap
      obtain ⟨loaded, pending, ⟨-, -, -, hpending, -⟩, hnumber⟩ := hnumbered howner hwrap
      obtain ⟨hlt, hlast⟩ := hnumber _ hpending
      refine ⟨List.pairwise_append.mpr ⟨hpairwise, List.pairwise_singleton _ _, ?_⟩, ?_⟩
      · intro earlier hearlier number hmem
        rw [List.mem_singleton.mp hmem]
        exact hlast earlier hearlier
      · exact List.forall_mem_append.mpr ⟨hbelow, List.forall_mem_singleton.mpr hlt⟩
    · obtain ⟨loaded, pending, hemits, -⟩ := hnumbered howner hwrap
      exact ⟨loaded, none, hemits.2.2.2.2 _, fun _ hnone => by cases hnone⟩
  | notSent =>
    refine ⟨h, fun _ hwrap => ?_⟩
    obtain ⟨loaded, pending, hemits, hpending⟩ := hnumbered howner hwrap
    exact ⟨loaded, none, hemits.2.2.2.2 _, fun _ hnone => by cases hnone⟩
  | countDrop =>
    have hcounters : (w.setCounters e ⟨(w.counters e).sequence,
        saturatingSucc (w.counters e).dropped⟩).counters e = ⟨(w.counters e).sequence,
          saturatingSucc (w.counters e).dropped⟩ := Function.update_self ..
    unfold Increasing Numbered
    rw [hcounters]
    refine ⟨h, fun _ hwrap => ?_⟩
    obtain ⟨loaded, pending, hemits, hpending⟩ := hnumbered howner hwrap
    exact ⟨loaded, pending, hemits _, hpending⟩

/-- A sequential emitter's numbers increase in every state that is reached. -/
theorem increasing_of_reaches [DecidableEq ι] {printDouble : F64 → Bytes} {clients : ι → Client}
    {c : System ι EmitOp EmitOp.Ans Unit (World ε)}
    (hsequential : ∀ i j, owner i = e → owner j = e → i = j)
    (h : System.Reaches (fun i => Responds (owner i)) (Delivers senders)
      (system senders owner printDouble clients) c) : Increasing e c.state := by
  refine (System.Reaches.invariant (Increasing e) (Numbered senders owner e) ?_ ?_ ?_ ?_ ?_ h).1
  · intro i op next w answer w' hinv hnumbered hresponds
    by_cases howner : owner i = e
    · exact hinv.call howner hnumbered (howner ▸ hresponds)
    · obtain ⟨hcounters, hnumbers⟩ := hresponds.other (Ne.symm howner)
      exact ⟨hinv.congr hcounters hnumbers, fun hself => absurd hself howner⟩
  · intro i j op w answer w' p hne _ hresponds hnumbered howner
    have hother : e ≠ owner i := fun heq => hne (hsequential j i howner heq.symm)
    obtain ⟨hcounters, hnumbers⟩ := hresponds.other hother
    exact hnumbered.congr hcounters hnumbers howner
  · intro w w' hinv hdelivers
    cases hdelivers
    exact ⟨hinv, fun _ _ hnumbered => hnumbered⟩
  · exact fun _ => ⟨.nil, fun _ hmem => absurd hmem List.not_mem_nil⟩
  · rintro i rfl -
    exact ⟨0, none, emits_run (clients i) 0 none, fun _ hnone => by cases hnone⟩

/-- The key under which the collector knows a datagram. -/
def eventIdOf (senders : ε → Sender) (entry : ε × Record) : Option EventId :=
  ((senders entry.1).received entry.2 0).eventId

/-- Datagrams with one key are the same. -/
theorem Truthful.eq_of_eventIdOf (h : Truthful senders w) (hdistinct : DistinctAttempts senders)
    (hincreasing : (w.numbers e).Pairwise (· < ·)) {entry entry' : ε × Record}
    (hentry : entry ∈ w.sent) (hentry' : entry' ∈ w.sent) (he : entry.1 = e)
    (hid : eventIdOf senders entry = eventIdOf senders entry') :
    entry = entry' := by
  obtain ⟨hsome, hattempt, -⟩ := h.sent entry hentry
  obtain ⟨hsome', hattempt', -⟩ := h.sent entry' hentry'
  obtain ⟨id, hsender⟩ := Option.isSome_iff_exists.mp hsome
  obtain ⟨id', hsender'⟩ := Option.isSome_iff_exists.mp hsome'
  have hkeys : ((senders entry.1).uid, id, entry.2.sequence) =
      ((senders entry'.1).uid, id', entry'.2.sequence) := by
    simp only [eventIdOf, Sender.received, Received.eventId, Received.key, hattempt, hattempt',
      hsender, hsender', Option.map_some, Option.some.injEq] at hid
    exact hid
  simp only [Prod.mk.injEq] at hkeys
  obtain ⟨-, rfl, hsequence⟩ := hkeys
  have hsame : entry.1 = entry'.1 := hdistinct _ _ hsome (hsender.trans hsender'.symm)
  have hmem : entry ∈ w.sent.filter (·.1 = e) :=
    List.mem_filter.mpr ⟨hentry, decide_eq_true he⟩
  have hmem' : entry' ∈ w.sent.filter (·.1 = e) :=
    List.mem_filter.mpr ⟨hentry', decide_eq_true (hsame.symm.trans he)⟩
  have hnodup : (w.numbers e).Nodup := hincreasing.imp fun hlt => UInt64.ne_of_lt hlt
  exact List.inj_on_of_nodup_map hnodup hmem hmem' hsequence

end Sequential

/-- In any interleaving of emissions and deliveries the collector reports the sum of the largest
counts of the accepted events, never less than before and never more than the emitters counted. The
numbers of a sequential emitter increase. -/
theorem loss_accounting [Fintype ε] [DecidableEq ε] [DecidableEq ι] {printDouble : F64 → Bytes}
    {clients : ι → Client} {c : System ι EmitOp EmitOp.Ans Unit (World ε)}
    (hdistinct : DistinctAttempts senders)
    (hreaches : System.Reaches (fun i => Responds (owner i)) (Delivers senders)
      (system senders owner printDouble clients) c) :
    (c.state.collector.replayEvictions = 0 → c.state.collector.reportedDrops < maxU64 →
      c.state.collector.reportedDrops = reportedLoss (Metrics.new.taken c.state.calls) ∧
      c.state.collector.reportedDrops ≤ ∑ e, (c.state.counters e).dropped.toNat ∧
      ∀ calls, (Metrics.new.acceptAll calls).replayEvictions = 0 →
        (Metrics.new.acceptAll calls).reportedDrops < maxU64 →
        (Metrics.new.taken calls).Perm (Metrics.new.taken c.state.calls) →
        (Metrics.new.acceptAll calls).reportedDrops = c.state.collector.reportedDrops) ∧
    (∀ c', System.Reaches (fun i => Responds (owner i)) (Delivers senders) c c' →
      c.state.collector.reportedDrops ≤ c'.state.collector.reportedDrops) ∧
    ∀ e, (∀ i j, owner i = e → owner j = e → i = j) → (c.state.counters e).sequence ≤ 2 ^ 64 →
      (c.state.numbers e).Pairwise (· < ·) ∧
      ∀ entry ∈ c.state.sent, ∀ entry' ∈ c.state.sent, entry.1 = e →
        eventIdOf senders entry = eventIdOf senders entry' → entry = entry' := by
  have htruthful := truthful_of_reaches hreaches
  refine ⟨fun hevictions hreported => ?_, fun c' hreaches' => ?_, fun e hsequential hwrap => ?_⟩
  · have haccounts := Metrics.accounts_acceptAll hevictions hreported
    refine ⟨haccounts.reported, ?_, fun calls hevictions' hreported' hperm => ?_⟩
    · rw [World.collector, haccounts.reported]
      exact htruthful.reportedLoss_le hdistinct fun _ => mem_of_mem_taken
    · rw [(Metrics.accounts_acceptAll hevictions' hreported').reported, World.collector,
        haccounts.reported]
      exact reportedLoss_perm hperm
  · obtain ⟨calls, hcalls⟩ := calls_of_reaches hreaches'
    rw [World.collector, World.collector, hcalls, Metrics.acceptAll_append]
    have hwindows := Metrics.windows_acceptAll Metrics.windows_new c.state.calls
    have hbound := (Metrics.reportedDrops_acceptAll Metrics.windows_new (Nat.zero_le _)
      c.state.calls).2
    exact (Metrics.reportedDrops_acceptAll hwindows hbound calls).1
  · obtain ⟨hincreasing, -⟩ := increasing_of_reaches hsequential hreaches hwrap
    exact ⟨hincreasing, fun entry hentry entry' hentry' he hid =>
      htruthful.eq_of_eventIdOf hdistinct hincreasing hentry hentry' he hid⟩

/-- Two processes with an emitter each. -/
def pairSenders (e : Bool) : Sender :=
  let number := if e then 8 else 7
  ⟨⟨some [47], true, some (Vector.replicate 16 number), none⟩, 1000, number.toUInt32⟩

/-- An event of the example. -/
def startedEvent : Event :=
  { component := "client", event := "operation_started", operation := "check", stage := "check",
    outcome := "started", reason := "none", duration := ⟨0, 0⟩, mode := "network_bound",
    providerIndex := none, storageState := "not_applicable", awaitingBootTest := false,
    degraded := false, nativeCode := none }

/-- A client that emits so many times. -/
def emits : Nat → Client
  | 0 => .stop
  | count + 1 => .emit startedEvent fun _ => emits count

/-- The first datagrams of an emitter fail, and later ones are sent. -/
def flaky (e : Bool) (losses : UInt64) (op : EmitOp) (w : World Bool) : op.Ans × World Bool :=
  match op with
  | .fetchSequence => (UInt64.ofNat (w.counters e).sequence,
      w.setCounters e ⟨(w.counters e).sequence + 1, (w.counters e).dropped⟩)
  | .now => (none, w)
  | .loadDropped => ((w.counters e).dropped, w)
  | .send record =>
    if (w.counters e).dropped < losses then (false, w)
    else (true, { w with sent := w.sent ++ [(e, record)] })
  | .countDrop => ((),
      w.setCounters e ⟨(w.counters e).sequence, saturatingSucc (w.counters e).dropped⟩)

private theorem flaky_responds (e : Bool) (losses : UInt64) (op : EmitOp) (w : World Bool) :
    Responds e op w (flaky e losses op w).1 (flaky e losses op w).2 := by
  cases op with
  | fetchSequence => exact .fetchSequence w
  | now => exact .now w none
  | loadDropped => exact .loadDropped w _ (UInt64.le_refl _)
  | send record =>
    unfold flaky
    dsimp only
    split_ifs
    · exact .notSent w record
    · exact .sent w record
  | countDrop => exact .countDrop w

/-- One client emits twice and the other three times. -/
def pairSystem : System Bool EmitOp EmitOp.Ans Unit (World Bool) :=
  system pairSenders id (fun _ => []) fun i => emits (if i then 3 else 2)

/-- The world after all emissions, of which one and two were lost. -/
def flakyRun : World Bool :=
  ((pairSystem.programs true).runWith (flaky true 2)
    ((pairSystem.programs false).runWith (flaky false 1) pairSystem.state).2).2

/-- The datagrams that were sent. -/
def lateRecord (e : Bool) : Record :=
  if e then (pairSenders true).emitter.record startedEvent 2 none 2
  else (pairSenders false).emitter.record startedEvent 1 none 1

/-- The late record arrives once more. -/
def World.arrive (w : World Bool) (e : Bool) (receivedAtMs : UInt64) : World Bool :=
  { w with calls := w.calls ++ [(pairSenders e).received (lateRecord e) receivedAtMs] }

/-- Both arrive, and the first once more. -/
def arrived : World Bool := ((flakyRun.arrive false 5).arrive true 6).arrive false 7

private theorem reaches_arrived : ∃ programs,
    System.Reaches (fun e : Bool => Responds e) (Delivers pairSenders) pairSystem
      ⟨programs, arrived⟩ := by
  have hfirst : System.Reaches (fun e : Bool => Responds e) (Delivers pairSenders) pairSystem _ :=
    System.reaches_runWith (flaky_responds false 1) pairSystem
  have hsecond := hfirst.trans (System.reaches_runWith (flaky_responds true 2) _)
  obtain ⟨programs, hemitted⟩ : ∃ programs, System.Reaches (fun e : Bool => Responds e)
      (Delivers pairSenders) pairSystem ⟨programs, flakyRun⟩ := ⟨_, hsecond⟩
  have hsent : ∀ e, (e, lateRecord e) ∈ flakyRun.sent := by decide +kernel
  have hone := hemitted.tail (.outside (.deliver 5 (hsent false)))
  have htwo := hone.tail (.outside (.deliver 6 (hsent true)))
  exact ⟨programs, htwo.tail (.outside (.deliver 7 (hsent false)))⟩

/-- The datagrams that arrive report the three losses, and a duplicate adds none. -/
theorem loss_accounting_flaky :
    ∃ c, System.Reaches (fun e : Bool => Responds e) (Delivers pairSenders) pairSystem c ∧
      c.state.collector.reportedDrops = 3 ∧
      c.state.collector.reportedDrops ≤ ∑ e, (c.state.counters e).dropped.toNat ∧
      ∀ e, (c.state.numbers e).Pairwise (· < ·) := by
  obtain ⟨programs, hreaches⟩ := reaches_arrived
  have hevictions : arrived.collector.replayEvictions = 0 := by decide +kernel
  have hreported : arrived.collector.reportedDrops = 3 := by decide +kernel
  have hdistinct : DistinctAttempts pairSenders := by
    unfold DistinctAttempts
    decide +kernel
  have hbelow : 3 < maxU64 := by decide
  have hsequence : ∀ e, (arrived.counters e).sequence ≤ 2 ^ 64 := by decide +kernel
  obtain ⟨haccounting, -, hnumbers⟩ := loss_accounting hdistinct hreaches
  refine ⟨_, hreaches, hreported, (haccounting hevictions (hreported.trans_lt hbelow)).2.1,
    fun e => ?_⟩
  exact (hnumbers e (fun i j hi hj => hi.trans hj.symm) (hsequence e)).1

end Leelo.Collector
