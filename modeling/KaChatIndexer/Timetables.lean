import Mathlib.Order.Interval.Set.OrdConnected
import Mathlib.Data.List.Nodup
import Mathlib.Data.List.Pairwise

/-!
# Timetables

A timetable is a list of slots, each half-open, each beginning where the one before it ends. At any
time at most one slot is due, and as time goes on the slots come in the order of the list.
-/
namespace Timetables

structure Slot (K T : Type*) where
  kind : K
  start : T
  stop : T

section
variable {K T : Type*} [LinearOrder T] {a b t t' : T} {slots : List (Slot K T)}

/-- The times of a slot. -/
def Slot.span (s : Slot K T) : Set T := Set.Ico s.start s.stop

/-- What is due at a time. -/
def due (slots : List (Slot K T)) (t : T) : Option K :=
  (slots.find? fun s => s.start ≤ t ∧ t < s.stop).map Slot.kind

/-- The slots cover a stretch of time, one after the other. -/
inductive Adjacent : T → List (Slot K T) → T → Prop
  | nil (a : T) : Adjacent a [] a
  | cons {s : Slot K T} {rest : List (Slot K T)} {b : T} (hle : s.start ≤ s.stop)
      (hrest : Adjacent s.stop rest b) : Adjacent s.start (s :: rest) b

theorem Adjacent.le (h : Adjacent a slots b) : a ≤ b := by
  induction h with
  | nil => exact le_rfl
  | cons hle _ ih => exact hle.trans ih

theorem Adjacent.bounds (h : Adjacent a slots b) {s : Slot K T} (hs : s ∈ slots) :
    a ≤ s.start ∧ s.stop ≤ b := by
  induction h with
  | nil => cases hs
  | cons hle hrest ih =>
    rcases List.mem_cons.mp hs with rfl | hs
    · exact ⟨le_rfl, hrest.le⟩
    · exact ⟨hle.trans (ih hs).1, (ih hs).2⟩

theorem Adjacent.pairwise (h : Adjacent a slots b) :
    slots.Pairwise fun s s' => s.stop ≤ s'.start := by
  induction h with
  | nil => exact List.Pairwise.nil
  | cons _ hrest ih => exact List.pairwise_cons.mpr ⟨fun s' hs' => (hrest.bounds hs').1, ih⟩

theorem Adjacent.mem_span (h : Adjacent a slots b) (hat : a ≤ t) (htb : t < b) :
    ∃ s ∈ slots, t ∈ s.span := by
  induction h with
  | nil => exact absurd (hat.trans_lt htb) (lt_irrefl _)
  | @cons s rest b hle hrest ih =>
    by_cases hstop : t < s.stop
    · exact ⟨s, List.mem_cons_self, hat, hstop⟩
    · obtain ⟨s', hs', hspan⟩ := ih (not_lt.mp hstop) htb
      exact ⟨s', List.mem_cons_of_mem s hs', hspan⟩

theorem due_mem {k : K} (h : due slots t = some k) : ∃ s ∈ slots, s.kind = k ∧ t ∈ s.span := by
  obtain ⟨s, hs, rfl⟩ := Option.map_eq_some_iff.mp h
  have hspan := List.find?_some hs
  exact ⟨s, List.mem_of_find?_eq_some hs, rfl, by simpa [Slot.span] using hspan⟩

/-- Of adjacent slots, the ones that are due at two times come in the order of the times. -/
theorem Adjacent.order (h : Adjacent a slots b) {i j : ℕ} {s s' : Slot K T} (hs : slots[i]? = some s)
    (hs' : slots[j]? = some s') (hspan : t ∈ s.span) (hspan' : t' ∈ s'.span) (hle : t ≤ t') :
    i ≤ j := by
  by_contra hlt
  obtain ⟨hi, rfl⟩ := List.getElem?_eq_some_iff.mp hs
  obtain ⟨hj, rfl⟩ := List.getElem?_eq_some_iff.mp hs'
  have hapart := List.pairwise_iff_getElem.mp h.pairwise j i hj hi (not_le.mp hlt)
  exact absurd (hspan'.2.trans_le (hapart.trans hspan.1)) (not_lt.mpr hle)

/-- A slot is due exactly in its span. -/
theorem Adjacent.due_iff (h : Adjacent a slots b) {k : K} :
    due slots t = some k ↔ ∃ s ∈ slots, s.kind = k ∧ t ∈ s.span := by
  refine ⟨due_mem, ?_⟩
  rintro ⟨s, hs, rfl, hspan⟩
  cases hdue : slots.find? fun s => s.start ≤ t ∧ t < s.stop with
  | none =>
    have hnot := List.find?_eq_none.mp hdue s hs
    exact absurd hspan (by simpa [Slot.span] using hnot)
  | some s' =>
    have hspan' := List.find?_some hdue
    obtain ⟨i, hi⟩ := List.mem_iff_getElem?.mp hs
    obtain ⟨j, hj⟩ := List.mem_iff_getElem?.mp (List.mem_of_find?_eq_some hdue)
    have hmem : t ∈ s'.span := by simpa [Slot.span] using hspan'
    have hij : i = j :=
      le_antisymm (h.order hi hj hspan hmem le_rfl) (h.order hj hi hmem hspan le_rfl)
    have hsame : s = s' := Option.some.inj (hi.symm.trans (hij ▸ hj))
    rw [due, hdue, hsame]
    rfl

/-- Something is due exactly within the stretch. -/
theorem Adjacent.due_isSome (h : Adjacent a slots b) : (due slots t).isSome ↔ a ≤ t ∧ t < b := by
  rw [Option.isSome_iff_exists]
  constructor
  · rintro ⟨k, hk⟩
    obtain ⟨s, hs, -, hspan⟩ := due_mem hk
    obtain ⟨hstart, hstop⟩ := h.bounds hs
    exact ⟨hstart.trans hspan.1, hspan.2.trans_le hstop⟩
  · rintro ⟨hat, htb⟩
    obtain ⟨s, hs, hspan⟩ := h.mem_span hat htb
    exact ⟨s.kind, h.due_iff.mpr ⟨s, hs, rfl, hspan⟩⟩

/-- Where no kind comes twice, the times of a kind form one interval. -/
theorem Adjacent.ordConnected (h : Adjacent a slots b) (hnodup : (slots.map Slot.kind).Nodup)
    (k : K) : {t | due slots t = some k}.OrdConnected := by
  refine Set.ordConnected_iff.mpr fun t ht t' ht' _ u hu => ?_
  obtain ⟨s, hs, hk, hspan⟩ := h.due_iff.mp ht
  obtain ⟨s', hs', hk', hspan'⟩ := h.due_iff.mp ht'
  have hsame : s = s' := List.inj_on_of_nodup_map hnodup hs hs' (hk.trans hk'.symm)
  exact h.due_iff.mpr ⟨s, hs, hk, hspan.1.trans hu.1, hu.2.trans_lt (hsame ▸ hspan'.2)⟩

end

end Timetables
