import Leelo.Core.Text

/-!
# Labelled series

Lists cut at a separator, and keys of the form `name{label="value",...}`. A key is read by
cutting it at its separators. What was read spells the key, and a key whose words hold no
separator is read back.
-/

namespace Leelo.Core

section Cutting

variable {α : Type} [DecidableEq α] {separator mark : α} {text before after rest : List α}

/-- The parts around the first separator. -/
def splitOnce (separator : α) : List α → Option (List α × List α)
  | [] => none
  | a :: text =>
    if a = separator then some ([], text)
    else (splitOnce separator text).map fun parts => (a :: parts.1, parts.2)

/-- The parts around the last separator. -/
def rsplitOnce (separator : α) (text : List α) : Option (List α × List α) :=
  (splitOnce separator text.reverse).map fun parts => (parts.2.reverse, parts.1.reverse)

/-- What follows the mark at the front. -/
def stripFirst (mark : α) : List α → Option (List α)
  | [] => none
  | a :: text => if a = mark then some text else none

/-- What precedes the mark at the end. -/
def stripLast (mark : α) (text : List α) : Option (List α) :=
  (stripFirst mark text.reverse).map List.reverse

/-- The text is split at the first separator. -/
theorem splitOnce_eq_some_iff :
    splitOnce separator text = some (before, after) ↔
      text = before ++ separator :: after ∧ separator ∉ before := by
  induction text generalizing before with
  | nil => simp [splitOnce]
  | cons a text ih =>
    unfold splitOnce
    by_cases ha : a = separator
    · rw [if_pos ha, Option.some.injEq, Prod.mk.injEq]
      constructor
      · rintro ⟨rfl, rfl⟩
        exact ⟨by rw [ha, List.nil_append], List.not_mem_nil⟩
      · rintro ⟨htext, hbefore⟩
        cases before with
        | nil => exact ⟨rfl, (List.cons.inj htext).2⟩
        | cons b before =>
          have hb : a = b := (List.cons.inj htext).1
          exact absurd (ha ▸ hb ▸ List.mem_cons_self) hbefore
    · rw [if_neg ha, Option.map_eq_some_iff]
      constructor
      · rintro ⟨parts, hparts, hcut⟩
        obtain ⟨rfl, rfl⟩ := Prod.mk.inj hcut
        obtain ⟨rfl, hfresh⟩ := ih.mp hparts
        exact ⟨rfl, List.not_mem_cons_of_ne_of_not_mem (Ne.symm ha) hfresh⟩
      · rintro ⟨htext, hbefore⟩
        cases before with
        | nil => exact absurd (List.cons.inj htext).1 ha
        | cons b before =>
          obtain ⟨rfl, hrest⟩ := List.cons.inj htext
          have hfresh := List.not_mem_of_not_mem_cons hbefore
          exact ⟨(before, after), ih.mpr ⟨hrest, hfresh⟩, rfl⟩

/-- The text is split at the last separator. -/
theorem rsplitOnce_eq_some_iff :
    rsplitOnce separator text = some (before, after) ↔
      text = before ++ separator :: after ∧ separator ∉ after := by
  have hreverse : text.reverse = after.reverse ++ separator :: before.reverse ↔
      text = before ++ separator :: after := by
    rw [← List.reverse_inj]
    simp
  have hsplit : splitOnce separator text.reverse = some (after.reverse, before.reverse) ↔
      text = before ++ separator :: after ∧ separator ∉ after := by
    rw [splitOnce_eq_some_iff, hreverse, List.mem_reverse]
  rw [← hsplit, rsplitOnce, Option.map_eq_some_iff]
  constructor
  · rintro ⟨parts, hparts, hcut⟩
    obtain ⟨rfl, rfl⟩ := Prod.mk.inj hcut
    rw [hparts, List.reverse_reverse, List.reverse_reverse]
  · intro hparts
    exact ⟨_, hparts, by rw [List.reverse_reverse, List.reverse_reverse]⟩

/-- The mark opens the text. -/
theorem stripFirst_eq_some_iff : stripFirst mark text = some rest ↔ text = mark :: rest := by
  cases text with
  | nil => simp [stripFirst]
  | cons a text =>
    change (if a = mark then some text else none) = some rest ↔ _
    by_cases ha : a = mark
    · rw [if_pos ha, Option.some.injEq, ha, List.cons.injEq]
      exact (and_iff_right rfl).symm
    · rw [if_neg ha, List.cons.injEq]
      exact ⟨fun h => (Option.some_ne_none _ h.symm).elim, fun h => absurd h.1 ha⟩

/-- The mark closes the text. -/
theorem stripLast_eq_some_iff : stripLast mark text = some rest ↔ text = rest ++ [mark] := by
  rw [stripLast, Option.map_eq_some_iff]
  constructor
  · rintro ⟨before, hbefore, rfl⟩
    rw [stripFirst_eq_some_iff, List.reverse_eq_cons_iff] at hbefore
    exact hbefore
  · rintro rfl
    refine ⟨rest.reverse, ?_, List.reverse_reverse rest⟩
    rw [stripFirst_eq_some_iff, List.reverse_append]
    rfl

end Cutting

/-- The name and the value of a label. -/
abbrev Label := Bytes × Bytes

/-- Print `label="value"`. -/
def printLabel (label : Label) : Bytes := label.1 ++ 61 :: 34 :: (label.2 ++ [34])

/-- Print `name{label="value",...}`. -/
def series (name : Bytes) (labels : List Label) : Bytes :=
  name ++ 123 :: (List.intercalate [44] (labels.map printLabel) ++ [125])

/-- Reads one label, its value in quotes. -/
def readLabel (field : Bytes) : Option Label :=
  (splitOnce 61 field).bind fun parts => (stripFirst 34 parts.2).bind fun value =>
    (stripLast 34 value).map fun value => (parts.1, value)

/-- Reads every label. -/
def readLabels (fields : List Bytes) : Option (List Label) :=
  fields.mapM readLabel

/-- Reads the name of a series and its labels. -/
def readSeries (key : Bytes) : Option (Bytes × List Label) :=
  (splitOnce 123 key).bind fun parts => (stripLast 125 parts.2).bind fun labels =>
    (readLabels (labels.splitOn 44)).map fun labels => (parts.1, labels)

theorem readLabel_eq_some_iff {field : Bytes} {label : Label} :
    readLabel field = some label ↔ field = printLabel label ∧ 61 ∉ label.1 := by
  simp only [readLabel, Option.bind_eq_some_iff, Option.map_eq_some_iff, stripFirst_eq_some_iff,
    stripLast_eq_some_iff]
  constructor
  · rintro ⟨parts, hparts, quoted, hquoted, value, rfl, rfl⟩
    obtain ⟨rfl, hname⟩ := splitOnce_eq_some_iff.mp hparts
    exact ⟨by rw [hquoted, printLabel], hname⟩
  · rintro ⟨rfl, hname⟩
    refine ⟨(label.1, 34 :: (label.2 ++ [34])), ?_, label.2 ++ [34], rfl, label.2, rfl, rfl⟩
    exact splitOnce_eq_some_iff.mpr ⟨rfl, hname⟩

variable {labels : List Label} {name : Bytes}

/-- What is read as labels is those labels' texts. -/
theorem readLabels_eq_some_iff {fields : List Bytes} :
    readLabels fields = some labels ↔
      fields = labels.map printLabel ∧ ∀ label ∈ labels, 61 ∉ label.1 := by
  induction fields generalizing labels with
  | nil =>
    constructor
    · rintro h
      cases h
      exact ⟨rfl, List.forall_mem_nil _⟩
    · rintro ⟨h, -⟩
      rw [List.map_eq_nil_iff.mp h.symm]
      rfl
  | cons field fields ih =>
    rw [readLabels, List.mapM_cons]
    change (readLabel field).bind (fun label => (readLabels fields).bind fun labels =>
      some (label :: labels)) = _ ↔ _
    simp only [Option.bind_eq_some_iff, readLabel_eq_some_iff, ih]
    constructor
    · rintro ⟨label, ⟨rfl, hname⟩, rest, ⟨rfl, hnames⟩, hcons⟩
      cases hcons
      exact ⟨rfl, List.forall_mem_cons.mpr ⟨hname, hnames⟩⟩
    · rintro ⟨hfields, hnames⟩
      cases labels with
      | nil => cases hfields
      | cons label labels =>
        obtain ⟨hfield, hrest⟩ := List.cons.inj hfields
        obtain ⟨hname, hnames⟩ := List.forall_mem_cons.mp hnames
        exact ⟨label, ⟨hfield, hname⟩, labels, ⟨hrest, hnames⟩, rfl⟩

/-- A key that was read is the printed form of what was read. -/
theorem eq_series_of_readSeries {key : Bytes} (h : readSeries key = some (name, labels)) :
    key = series name labels := by
  simp only [readSeries, Option.bind_eq_some_iff, Option.map_eq_some_iff,
    stripLast_eq_some_iff] at h
  obtain ⟨parts, hparts, text, htext, labels', hlabels, hpair⟩ := h
  obtain ⟨rfl, rfl⟩ := Prod.mk.inj hpair
  obtain ⟨rfl, -⟩ := splitOnce_eq_some_iff.mp hparts
  rw [htext, series, ← (readLabels_eq_some_iff.mp hlabels).1, List.intercalate_splitOn]

/-- A key whose words hold no separator is read back. -/
theorem readSeries_series (hname : 123 ∉ name) (hne : labels ≠ [])
    (hlabels : ∀ label ∈ labels, 61 ∉ label.1 ∧ 44 ∉ label.1 ∧ 44 ∉ label.2) :
    readSeries (series name labels) = some (name, labels) := by
  have hcut : splitOnce 123 (series name labels) =
      some (name, List.intercalate [44] (labels.map printLabel) ++ [125]) :=
    splitOnce_eq_some_iff.mpr ⟨rfl, hname⟩
  have hfields : (List.intercalate [44] (labels.map printLabel)).splitOn 44 =
      labels.map printLabel := by
    refine List.splitOn_intercalate 44 (fun field hfield => ?_) (by simpa using hne)
    obtain ⟨label, hlabel, rfl⟩ := List.mem_map.mp hfield
    simp [printLabel, (hlabels label hlabel).2]
  have hread : readLabels (labels.map printLabel) = some labels :=
    readLabels_eq_some_iff.mpr ⟨rfl, fun label hlabel => (hlabels label hlabel).1⟩
  rw [readSeries, hcut, Option.bind_some, stripLast_eq_some_iff.mpr rfl, Option.bind_some,
    hfields, hread]
  rfl

/-- The bytes of a key are those of its words and the five separators. -/
theorem mem_series {byte : UInt8} (h : byte ∈ series name labels) :
    byte ∈ name ∨ byte ∈ [34, 44, 61, 123, 125] ∨
      ∃ label ∈ labels, byte ∈ label.1 ∨ byte ∈ label.2 := by
  simp only [series, List.mem_append, List.mem_cons, List.not_mem_nil, or_false] at h
  rcases h with h | rfl | h | rfl
  · exact .inl h
  · exact .inr (.inl (by simp))
  · rcases mem_intercalate h with h | ⟨field, hfield, h⟩
    · exact .inr (.inl (by simp [List.mem_singleton.mp h]))
    · obtain ⟨label, hlabel, rfl⟩ := List.mem_map.mp hfield
      simp only [printLabel, List.mem_append, List.mem_cons, List.not_mem_nil, or_false] at h
      rcases h with h | rfl | rfl | h | rfl
      · exact .inr (.inr ⟨label, hlabel, .inl h⟩)
      · exact .inr (.inl (by simp))
      · exact .inr (.inl (by simp))
      · exact .inr (.inr ⟨label, hlabel, .inr h⟩)
      · exact .inr (.inl (by simp))
  · exact .inr (.inl (by simp))

/-- Short labels make a short series. -/
theorem length_series_le {bound : Nat} (h : ∀ label ∈ labels, (label.1 ++ label.2).length ≤ bound) :
    (series name labels).length ≤ name.length + 2 + labels.length * (bound + 4) := by
  have hjoin : _ ≤ ((labels.map printLabel).map fun part => part.length + 1).sum :=
    length_intercalate_le 44 (labels.map printLabel)
  have hsum : ((labels.map printLabel).map fun part => part.length + 1).sum ≤
      labels.length * (bound + 4) := by
    clear hjoin
    induction labels with
    | nil => exact Nat.zero_le _
    | cons label labels ih =>
      obtain ⟨hlabel, hlabels⟩ := List.forall_mem_cons.mp h
      have hrest := ih hlabels
      rw [List.length_append] at hlabel
      simp only [List.map_cons, List.sum_cons, List.length_cons, printLabel, List.length_append,
        List.length_nil, Nat.succ_mul]
      omega
  simp only [series, List.length_append, List.length_cons, List.length_nil]
  omega

end Leelo.Core
