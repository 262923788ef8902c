import ObjectGraph.Proofs.Discipline
import ObjectGraph.Proofs.IndexCoherence
import ObjectGraph.Proofs.Without
import Mathlib.Data.List.Perm.Basic

/-!
# Sessions that agree

The registers of a session are finite maps and a finite set, and the order in which they are held
carries no meaning. Two sessions agree (`Session.Agrees`) when they track the same objects under the
same ids and the same records, index the same nodes in the same order under each key, and remember and
are configured alike; no operation tells them apart but by the order in which it goes through a register.

`Without` says of the index only which entries stay and that they keep their order. That is enough:
with a coherent index, what goes determines what is left (`Without.agrees`).
-/

set_option autoImplicit false

namespace ObjectGraph

namespace Session

/-- The registers of two sessions are the same maps and the same set. -/
structure Agrees (s t : Session) : Prop where
  register : ∀ (reg : Register) (i : NativeId), (s.register reg).get? i = (t.register reg).get? i
  records : ∀ q : Record, q ∈ s.records ↔ q ∈ t.records
  primaryIndex : ∀ key : Key, s.primaryIndex.get? key = t.primaryIndex.get? key
  indexedKeys : ∀ i : NativeId, s.indexedKeys.get? i = t.indexedKeys.get? i
  provider : s.provider = t.provider
  config : s.config = t.config
  tracker : s.tracker = t.tracker

namespace Agrees

variable {s t : Session}

theorem refl (s : Session) : s.Agrees s where
  register _ _ := rfl
  records _ := Iff.rfl
  primaryIndex _ := rfl
  indexedKeys _ := rfl
  provider := rfl
  config := rfl
  tracker := rfl

theorem tracks_iff (h : s.Agrees t) {x : Handle} : s.Tracks x ↔ t.Tracks x := by
  simp only [Tracks, h.register]

/-- A coherent index does not tell sessions apart that agree. -/
theorem indexCoherent (h : s.Agrees t) (hs : s.IndexCoherent) : t.IndexCoherent where
  borne {i key name} hclaim := by
    rw [← h.indexedKeys] at hclaim
    obtain ⟨x, hx, hentry⟩ := hs.borne hclaim
    refine ⟨x, (h.register .node i).symm.trans hx, ?_⟩
    rwa [indexedAt?, ← h.primaryIndex]
  claimed {key name x} hentry := by
    rw [indexedAt?, ← h.primaryIndex] at hentry
    simp only [← h.indexedKeys]
    exact hs.claimed hentry
  inhabited {key byType} hbucket := by
    rw [← h.primaryIndex] at hbucket
    exact hs.inhabited hbucket

end Agrees

/-- Where no key is kept without entries, the entries say what stands under a key. -/
theorem IndexCoherent.get?_primaryIndex_congr {s t : Session} (hs : s.IndexCoherent)
    (ht : t.IndexCoherent) {key : Key} (h : s.indexed key = t.indexed key) :
    s.primaryIndex.get? key = t.primaryIndex.get? key := by
  have hempty : ∀ {u : Session} {byType : Table TypeName Handle}, u.IndexCoherent →
      u.primaryIndex.get? key = some byType → byType.entries ≠ [] := fun hu hb hnil => by
    have hin := hu.inhabited hb
    rw [Table.isEmpty, hnil] at hin
    cases hin
  unfold indexed at h
  cases hsb : s.primaryIndex.get? key with
  | none =>
    cases htb : t.primaryIndex.get? key with
    | none => rfl
    | some byType =>
      rw [hsb, htb] at h
      exact absurd h.symm (hempty ht htb)
  | some byType =>
    cases htb : t.primaryIndex.get? key with
    | none =>
      rw [hsb, htb] at h
      exact absurd h (hempty hs hsb)
    | some byType' =>
      rw [hsb, htb] at h
      exact congrArg some (Table.ext h)

/-- The entries under a key are of different types. -/
theorem nodup_indexed (s : Session) (key : Key) : (s.indexed key).Nodup :=
  (Table.distinct _).imp fun hne heq => hne (congrArg Prod.fst heq)

namespace Without

variable {s t u : Session} {gone : Register → NativeId → Prop}

theorem indexed_eq (ht : s.Without gone t) (hu : s.Without gone u) (key : Key) :
    t.indexed key = u.indexed key := by
  have hsublist := ht.indexed_sublist key
  have hsublist' := hu.indexed_sublist key
  have hnodup := nodup_indexed s key
  refine (hnodup.perm_iff_eq_of_sublist hsublist hsublist').mp ?_
  refine (List.perm_ext_iff_of_nodup (hnodup.sublist hsublist) (hnodup.sublist hsublist')).mpr ?_
  exact fun e => ht.mem_indexed.trans hu.mem_indexed.symm

/-- What goes determines what is left. -/
theorem agrees (ht : s.Without gone t) (hu : s.Without gone u) (htc : t.IndexCoherent)
    (huc : u.IndexCoherent) : t.Agrees u where
  register _ _ := Option.ext fun _ => ht.get?_register.trans hu.get?_register.symm
  records _ := ht.mem_records.trans hu.mem_records.symm
  primaryIndex key := htc.get?_primaryIndex_congr huc (ht.indexed_eq hu key)
  indexedKeys _ := Option.ext fun _ => ht.get?_indexedKeys.trans hu.get?_indexedKeys.symm
  provider := ht.provider.trans hu.provider.symm
  config := ht.config.trans hu.config.symm
  tracker := ht.tracker.trans hu.tracker.symm

/-- Of what was tracked, two sessions that agree lack the same. -/
theorem gone_iff_of_agrees {gone' : Register → NativeId → Prop} (ht : s.Without gone t)
    (hu : s.Without gone' u) (h : t.Agrees u) {reg : Register} {i : NativeId}
    (hin : (s.register reg).contains i = true) : gone reg i ↔ gone' reg i := by
  have hsame : (t.register reg).contains i = (u.register reg).contains i := by
    rw [Table.contains, Table.contains, h.register]
  have hiff : (t.register reg).contains i = true ↔ _ := ht.contains_register
  rw [hsame, hu.contains_register, and_iff_right hin, and_iff_right hin] at hiff
  exact not_iff_not.mp hiff.symm

end Without

end Session

/-- Callers keep to the types or not whatever the order of the registers. -/
theorem Typing.Holds.of_agrees {τ : Typing} {w : World} (hw : τ.Holds w) {s : Session}
    (h : w.session.Agrees s) : τ.Holds ⟨w.heap, s⟩ :=
  fun reg i x hx => hw reg i x ((h.register reg i).trans hx)

end ObjectGraph
