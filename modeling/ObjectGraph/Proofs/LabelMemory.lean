import ObjectGraph.Proofs.ContentEquality
import ObjectGraph.Proofs.Snapshots

/-!
# Labels then and now, over the life of a tracker

A tracker is called to remember entities and to forget everything, and between the calls entities
change as anybody likes. Of the entities that share a type and an id it keeps only the last one
remembered (`LastRemembered`), whichever object that was. So the labels that a history calls previous
are those which that entity wore at that moment (`Tracker.snapshot?_eq_some_iff`).

A snapshot holds the labels beside the digest, and the digest covers the labels too. The two agree:
the labels can be read off the bytes that are hashed (`Entity.labels_eq_of_contentBytes_eq`), so an
entity whose labels have changed does not look as it is remembered. That takes labels of which a word
can hold the number and the lengths.
-/

set_option autoImplicit false

namespace ObjectGraph

/-! ## The labels in the bytes of a content -/

/-- A word can hold how many labels there are, and how long each is. -/
def ShortLabels (labels : NameSet .label) : Prop :=
  FitsWord labels.size ∧ ∀ l ∈ labels.toList, ShortText l.text

instance (labels : NameSet .label) : Decidable (ShortLabels labels) :=
  inferInstanceAs (Decidable (FitsWord labels.size ∧ ∀ l ∈ labels.toList, ShortText l.text))

open Content in
/-- Entities of one type with the same bytes wear the same labels. -/
theorem Entity.labels_eq_of_contentBytes_eq {m n : Heap} {e f : Entity}
    (htype : e.typeName = f.typeName) (he : ShortLabels e.labels) (hf : ShortLabels f.labels)
    (hbytes : e.contentBytes m = f.contentBytes n) : e.labels = f.labels := by
  rw [contentBytes, contentBytes, htype] at hbytes
  have hrest := List.append_cancel_left hbytes
  exact (delimits_labelsBytes he.1 he.2 f.labels hf _ _ hrest).1

/-! ## Differences -/

theorem NameSet.eq_empty_iff {sort : NameSort} {s : NameSet sort} : s = .empty ↔ ∀ n, n ∉ s := by
  constructor
  · rintro rfl
    exact NameSet.not_mem_empty
  · intro h
    exact NameSet.ext_mem fun n => iff_of_false (h n) (NameSet.not_mem_empty n)

namespace LabelHistory

variable (history : LabelHistory)

theorem mem_added {l : Label} : l ∈ history.added ↔ l ∈ history.current ∧ l ∉ history.previous :=
  NameSet.mem_difference

theorem mem_removed {l : Label} : l ∈ history.removed ↔ l ∈ history.previous ∧ l ∉ history.current :=
  NameSet.mem_difference

/-- No label is both put on and taken off. -/
theorem added_disjoint_removed (l : Label) : ¬ (l ∈ history.added ∧ l ∈ history.removed) := by
  rw [mem_added, mem_removed]
  rintro ⟨⟨-, hnew⟩, hold, -⟩
  exact hnew hold

/-- The previous labels become the current ones when some are taken off and others are put on. -/
theorem mem_current_iff (l : Label) :
    l ∈ history.current ↔ (l ∈ history.previous ∧ l ∉ history.removed) ∨ l ∈ history.added := by
  rw [mem_added, mem_removed]
  by_cases hold : l ∈ history.previous <;> simp [hold]

theorem isChanged_iff :
    history.isChanged = true ↔ history.added ≠ .empty ∨ history.removed ≠ .empty := by
  rw [isChanged, decide_eq_true_iff, ← not_and_or, not_iff_not]
  simp only [NameSet.eq_empty_iff, mem_added, mem_removed, not_and, not_not]
  constructor
  · intro hsame
    rw [hsame]
    exact ⟨fun _ => id, fun _ => id⟩
  · rintro ⟨hadded, hremoved⟩
    exact NameSet.ext_mem fun l => ⟨hremoved l, hadded l⟩

end LabelHistory

/-! ## Calls -/

/-- What may be done to a tracker. -/
inductive TrackerCall where
  /-- An entity is remembered as it is in the heap of that moment. -/
  | remember (heap : Heap) (e : Entity)
  /-- Everything is forgotten. -/
  | clear

/-- The two entities have one type and one id. -/
def Entity.SharesKey (e f : Entity) : Prop :=
  e.typeName = f.typeName ∧ ∃ id, e.id = some id ∧ f.id = some id

/-- The call leaves the snapshot of an entity alone. -/
def TrackerCall.Spares (e : Entity) : TrackerCall → Prop
  | .remember _ f => ¬ f.SharesKey e
  | .clear => False

/-- Of all entities with the type and the id of `e`, the one remembered last was `f`, and nothing has
been forgotten since. -/
def LastRemembered (calls : List TrackerCall) (e : Entity) (heap : Heap) (f : Entity) : Prop :=
  ∃ before since, calls = before ++ .remember heap f :: since ∧ f.SharesKey e ∧
    ∀ call ∈ since, call.Spares e

theorem not_lastRemembered_nil {e f : Entity} {heap : Heap} : ¬ LastRemembered [] e heap f := by
  rintro ⟨before, since, hcalls, -⟩
  cases before <;> cases hcalls

/-- The last call remembers the entity, or spares what was remembered before. -/
theorem lastRemembered_concat {calls : List TrackerCall} {call : TrackerCall} {e f : Entity}
    {heap : Heap} : LastRemembered (calls ++ [call]) e heap f ↔
      (call = .remember heap f ∧ f.SharesKey e) ∨
        (call.Spares e ∧ LastRemembered calls e heap f) := by
  constructor
  · rintro ⟨before, since, hcalls, hkey, hspared⟩
    rcases List.eq_nil_or_concat since with rfl | ⟨since, last, rfl⟩
    · obtain ⟨-, hlast⟩ := List.append_inj' hcalls rfl
      exact .inl ⟨List.head_eq_of_cons_eq hlast, hkey⟩
    · rw [List.concat_eq_append] at hcalls hspared
      rw [← List.cons_append, ← List.append_assoc] at hcalls
      obtain ⟨rfl, hlast⟩ := List.append_inj' hcalls rfl
      obtain rfl := List.head_eq_of_cons_eq hlast
      refine .inr ⟨hspared call (by simp), before, since, rfl, hkey, fun c hc => ?_⟩
      exact hspared c (List.mem_append_left _ hc)
  · rintro (⟨rfl, hkey⟩ | ⟨hspares, before, since, rfl, hkey, hspared⟩)
    · exact ⟨calls, [], rfl, hkey, fun c hc => absurd hc List.not_mem_nil⟩
    · refine ⟨before, since ++ [call], by simp, hkey, fun c hc => ?_⟩
      rcases List.mem_append.mp hc with hc | hc
      · exact hspared c hc
      · rw [List.mem_singleton.mp hc]
        exact hspares

namespace Tracker

/-- The tracker after a call. -/
def after (t : Tracker) : TrackerCall → Tracker
  | .remember heap e => t.remember heap e
  | .clear => .empty

/-- The tracker after one call after the other. -/
def run (t : Tracker) (calls : List TrackerCall) : Tracker := calls.foldl after t

theorem run_concat (t : Tracker) (calls : List TrackerCall) (call : TrackerCall) :
    t.run (calls ++ [call]) = (t.run calls).after call := by
  simp [run]

theorem snapshot?_empty (e : Entity) : empty.snapshot? e = none := by
  unfold snapshot?
  split
  · exact Table.get?_empty _
  · rfl

/-- A call that spares an entity leaves its snapshot as it was. -/
theorem snapshot?_after_of_spares {t : Tracker} {call : TrackerCall} {e : Entity}
    (h : call.Spares e) : (t.after call).snapshot? e = t.snapshot? e := by
  cases call with
  | clear => exact h.elim
  | remember heap f =>
    cases hf : f.id with
    | none => rw [after, remember, hf]
    | some id =>
      refine snapshot?_remember_of_ne t heap ?_
      by_cases htype : f.typeName = e.typeName
      · exact .inr fun hid => h ⟨htype, id, hf, hid.symm.trans hf⟩
      · exact .inl htype

/-- A call that remembers an entity with the same type and id replaces it. -/
theorem snapshot?_after_of_sharesKey {t : Tracker} {heap : Heap} {e f : Entity}
    (h : f.SharesKey e) : (t.after (.remember heap f)).snapshot? e = some (snapshotOf heap f) := by
  obtain ⟨htype, id, hf, he⟩ := h
  rw [snapshot?_congr _ (he.trans hf.symm) htype.symm]
  exact snapshot?_remember_self t heap hf

/-- The snapshot that an entity is compared with was taken of the one remembered last. -/
theorem snapshot?_eq_some_iff {calls : List TrackerCall} {e : Entity} {s : Snapshot} :
    (empty.run calls).snapshot? e = some s ↔
      ∃ heap f, LastRemembered calls e heap f ∧ s = snapshotOf heap f := by
  induction calls using List.reverseRecOn with
  | nil =>
    have hnone : (empty.run []).snapshot? e = none := snapshot?_empty e
    rw [hnone]
    simp [not_lastRemembered_nil]
  | append_singleton calls call ih =>
    rw [run_concat]
    simp only [lastRemembered_concat]
    by_cases hspares : call.Spares e
    · rw [snapshot?_after_of_spares hspares, ih]
      have hother : ∀ heap f, ¬ (call = .remember heap f ∧ f.SharesKey e) := by
        rintro heap f ⟨rfl, hkey⟩
        exact hspares hkey
      simp only [hspares, hother, true_and, false_or]
    · simp only [hspares, false_and, or_false]
      cases call with
      | clear =>
        have hnone : ((empty.run calls).after .clear).snapshot? e = none := snapshot?_empty e
        simp [hnone]
      | remember heap f =>
        have hkey : f.SharesKey e := not_not.mp hspares
        rw [snapshot?_after_of_sharesKey hkey, Option.some.injEq]
        constructor
        · rintro rfl
          exact ⟨heap, f, ⟨rfl, hkey⟩, rfl⟩
        · rintro ⟨heap', f', ⟨hcall, -⟩, rfl⟩
          cases hcall
          rfl

variable {calls : List TrackerCall} {e f : Entity} {heap heap' : Heap}

theorem snapshot?_of_lastRemembered (h : LastRemembered calls e heap f) :
    (empty.run calls).snapshot? e = some (snapshotOf heap f) :=
  snapshot?_eq_some_iff.mpr ⟨heap, f, h, rfl⟩

theorem previous_of_lastRemembered (h : LastRemembered calls e heap f) :
    ((empty.run calls).labelHistory e).previous = f.labels := by
  simp only [labelHistory, snapshot?_of_lastRemembered h, snapshotOf]

theorem previous_of_not_lastRemembered (h : ¬ ∃ heap f, LastRemembered calls e heap f) :
    ((empty.run calls).labelHistory e).previous = .empty := by
  cases hs : (empty.run calls).snapshot? e with
  | none => simp only [labelHistory, hs]
  | some s =>
    obtain ⟨heap, f, hlast, -⟩ := snapshot?_eq_some_iff.mp hs
    exact absurd ⟨heap, f, hlast⟩ h

/-- An entity that wears other labels does not look as it is remembered. -/
theorem isRemembered_eq_false_of_isChanged (h : LastRemembered calls e heap' f)
    (hf : ShortLabels f.labels) (he : ShortLabels e.labels)
    (hapart : World.Apart (f.contentBytes heap') (e.contentBytes heap))
    (hchanged : ((empty.run calls).labelHistory e).isChanged = true) :
    (empty.run calls).isRemembered heap e = false := by
  refine Bool.eq_false_iff.mpr fun hsame => ?_
  have hdigest : f.digest heap' = e.digest heap :=
    (isRemembered_iff (snapshot?_of_lastRemembered h)).mp hsame
  obtain ⟨-, -, -, hkey, -⟩ := id h
  have hlabels : f.labels = e.labels :=
    Entity.labels_eq_of_contentBytes_eq hkey.1 hf he (hapart hdigest)
  rw [LabelHistory.isChanged, decide_eq_true_iff, previous_of_lastRemembered h] at hchanged
  exact hchanged hlabels

/-- **A label history tells the labels then from the labels now, over the whole life of a tracker.**
After any calls, with entities that change in between as anybody likes, the previous labels of an
entity are those that the entity remembered last under its type and id wore at that moment, and none if
no such entity has been remembered since everything was forgotten, as when the entity has no id; the
current ones are those that it wears. What was put on and what was taken off are apart, and lead from
the previous labels to the current ones; the history is changed exactly if one of them is not empty.
And an entity with a snapshot and a changed history does not look as it is remembered, given that the
hash keeps the two contents apart and that a word can hold the number and the lengths of the labels. -/
theorem run_labelHistory (calls : List TrackerCall) (heap : Heap) (e : Entity) :
    let t := empty.run calls
    let history := t.labelHistory e
    ((t.snapshot? e).isSome = true ↔ ∃ heap' f, LastRemembered calls e heap' f) ∧
    (∀ heap' f, LastRemembered calls e heap' f → history.previous = f.labels) ∧
    ((e.id = none ∨ ¬ ∃ heap' f, LastRemembered calls e heap' f) → history.previous = .empty) ∧
    history.current = e.labels ∧
    (∀ l, ¬ (l ∈ history.added ∧ l ∈ history.removed)) ∧
    (∀ l, l ∈ history.current ↔ (l ∈ history.previous ∧ l ∉ history.removed) ∨ l ∈ history.added) ∧
    (history.isChanged = true ↔ history.added ≠ .empty ∨ history.removed ≠ .empty) ∧
    ∀ heap' f, LastRemembered calls e heap' f → ShortLabels f.labels → ShortLabels e.labels →
      World.Apart (f.contentBytes heap') (e.contentBytes heap) → history.isChanged = true →
      t.isRemembered heap e = false := by
  intro t history
  refine ⟨?_, fun heap' f => previous_of_lastRemembered, ?_, rfl, history.added_disjoint_removed,
    history.mem_current_iff, history.isChanged_iff,
    fun heap' f => isRemembered_eq_false_of_isChanged⟩
  · rw [Option.isSome_iff_exists]
    constructor
    · rintro ⟨s, hs⟩
      obtain ⟨heap', f, hlast, -⟩ := snapshot?_eq_some_iff.mp hs
      exact ⟨heap', f, hlast⟩
    · rintro ⟨heap', f, hlast⟩
      exact ⟨_, snapshot?_of_lastRemembered hlast⟩
  · intro h
    refine previous_of_not_lastRemembered fun hlast => h.elim (fun hid => ?_) fun hno => hno hlast
    obtain ⟨_, _, _, _, _, ⟨_, id, -, hsome⟩, -⟩ := hlast
    rw [hid] at hsome
    cases hsome

/-- A member of a club who wears some labels. -/
def member (labels : List Label) : Entity where
  typeName := ⟨"Person"⟩
  id := some 1
  labels := .ofList labels

/-- A guest is remembered, then a member under the same id. One who is on the board besides was a
member only, whatever the guest was, and does not look as is remembered. -/
theorem labelHistory_of_promotion :
    let t := empty.run [.remember .empty (member [⟨"Guest"⟩]), .remember .empty (member [⟨"Member"⟩])]
    let history := t.labelHistory (member [⟨"Member"⟩, ⟨"Board"⟩])
    history.previous = .ofList [⟨"Member"⟩] ∧ history.isChanged = true ∧
      t.isRemembered .empty (member [⟨"Member"⟩, ⟨"Board"⟩]) = false := by
  intro t history
  obtain ⟨-, hprevious, -, -, -, -, hchanged, hdirty⟩ := run_labelHistory
    [.remember .empty (member [⟨"Guest"⟩]), .remember .empty (member [⟨"Member"⟩])] .empty
    (member [⟨"Member"⟩, ⟨"Board"⟩])
  have hlast : LastRemembered
      [.remember .empty (member [⟨"Guest"⟩]), .remember .empty (member [⟨"Member"⟩])]
      (member [⟨"Member"⟩, ⟨"Board"⟩]) .empty (member [⟨"Member"⟩]) :=
    ⟨[_], [], rfl, ⟨rfl, 1, rfl, rfl⟩, fun c hc => absurd hc List.not_mem_nil⟩
  have hnew : history.isChanged = true := hchanged.mpr (.inl (by decide +kernel))
  refine ⟨hprevious _ _ hlast, hnew, hdirty _ _ hlast (by decide) (by decide) (fun hhash => ?_) hnew⟩
  exact absurd hhash (by decide +kernel)

end Tracker

end ObjectGraph
