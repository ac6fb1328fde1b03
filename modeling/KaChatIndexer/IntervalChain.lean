import Mathlib.Data.List.Induction
import Mathlib.Order.Lattice

/-!
# Chains of intervals

A list of nonempty intervals, each starting where the one before it ends: how the chain splits at
an inner point, how two neighbours merge, and where a point lies.
-/
namespace IntervalChain

section
variable {ι α : Type*} [LinearOrder α] (lo hi : ι → α)

/-- `Span a l b`: the intervals of `l` lead from `a` to `b`. -/
inductive Span : α → List ι → α → Prop
  | nil (a : α) : Span a [] a
  | cons {i : ι} {l : List ι} {b : α} : lo i < hi i → Span (hi i) l b → Span (lo i) (i :: l) b

/-- The points between the first and the last interval. -/
def boundaries (l : List ι) : List α := l.tail.map lo

variable {lo hi} {a b c : α} {l l' : List ι}

theorem Span.append (h : Span lo hi a l b) (h' : Span lo hi b l' c) : Span lo hi a (l ++ l') c := by
  induction h with
  | nil => exact h'
  | cons hlt _ ih => exact .cons hlt (ih h')

theorem span_append : Span lo hi a (l ++ l') c ↔ ∃ b, Span lo hi a l b ∧ Span lo hi b l' c := by
  constructor
  · intro h
    induction l generalizing a with
    | nil => exact ⟨a, .nil a, h⟩
    | cons i l ih =>
      cases h with
      | cons hlt h =>
        obtain ⟨b, h1, h2⟩ := ih h
        exact ⟨b, .cons hlt h1, h2⟩
  · rintro ⟨b, h1, h2⟩
    exact h1.append h2

theorem Span.le (h : Span lo hi a l b) : a ≤ b := by
  induction h with
  | nil => exact le_rfl
  | cons hlt _ ih => exact hlt.le.trans ih

/-- Each interval of the chain lies between its ends. -/
theorem Span.bounds (h : Span lo hi a l b) {i : ι} (hmi : i ∈ l) :
    a ≤ lo i ∧ lo i < hi i ∧ hi i ≤ b := by
  induction h with
  | nil => simp at hmi
  | cons hlt htail ih =>
    rcases List.mem_cons.mp hmi with rfl | hmem
    · exact ⟨le_rfl, hlt, htail.le⟩
    · obtain ⟨h1, h2, h3⟩ := ih hmem
      exact ⟨hlt.le.trans h1, h2, h3⟩

theorem Span.ordered (h : Span lo hi a l b) : l.Pairwise fun i j => hi i ≤ lo j := by
  induction h with
  | nil => exact .nil
  | cons hlt htail ih => exact List.pairwise_cons.mpr ⟨fun j hj => (htail.bounds hj).1, ih⟩

theorem Span.nodup (h : Span lo hi a l b) : l.Nodup := by
  refine h.ordered.imp_of_mem fun {i j} hmem _ hle heq => ?_
  rw [← heq] at hle
  exact absurd (h.bounds hmem).2.1 (not_lt.mpr hle)

/-- Two intervals of the chain with one starting point are one interval. -/
theorem Span.lo_injective (h : Span lo hi a l b) {i j : ι} (hmi : i ∈ l) (hj : j ∈ l)
    (heq : lo i = lo j) : i = j := by
  induction h with
  | nil => simp at hmi
  | cons hlt htail ih =>
    rcases List.mem_cons.mp hmi with rfl | hil <;> rcases List.mem_cons.mp hj with rfl | hjl
    · rfl
    · exact absurd heq (hlt.trans_le (htail.bounds hjl).1).ne
    · exact absurd heq.symm (hlt.trans_le (htail.bounds hil).1).ne
    · exact ih hil hjl

theorem Span.mem_boundaries (h : Span lo hi a l b) {k : α} :
    k ∈ boundaries lo l ↔ k ≠ a ∧ ∃ i ∈ l, lo i = k := by
  cases h with
  | nil => simp [boundaries]
  | @cons i l _ hlt htail =>
    simp only [boundaries, List.tail_cons, List.mem_map, List.mem_cons]
    constructor
    · rintro ⟨j, hj, rfl⟩
      exact ⟨(hlt.trans_le (htail.bounds hj).1).ne', j, .inr hj, rfl⟩
    · rintro ⟨hne, j, rfl | hj, rfl⟩
      · exact absurd rfl hne
      · exact ⟨j, hj, rfl⟩

/-- An inner point splits its interval in two. -/
theorem Span.split {i j k : ι} (h : Span lo hi a (l ++ i :: l') b) (hj : lo j = lo i)
    (hjk : hi j = lo k) (hk : hi k = hi i) (hlo : lo i < lo k) (hhi : lo k < hi i) :
    Span lo hi a (l ++ j :: k :: l') b := by
  obtain ⟨c, hl, hr⟩ := span_append.mp h
  refine span_append.mpr ⟨c, hl, ?_⟩
  cases hr with
  | cons _ htail =>
    rw [← hj]
    refine .cons (by rw [hj, hjk]; exact hlo) ?_
    rw [hjk]
    exact .cons (by rw [hk]; exact hhi) (by rw [hk]; exact htail)

/-- Two neighbours merge. -/
theorem Span.merge {i j m : ι} (h : Span lo hi a (l ++ i :: j :: l') b) (hlo : lo m = lo i)
    (hhi : hi m = hi j) : Span lo hi a (l ++ m :: l') b := by
  obtain ⟨c, hl, hr⟩ := span_append.mp h
  refine span_append.mpr ⟨c, hl, ?_⟩
  cases hr with
  | cons hlt htail =>
    generalize hc : hi i = d at htail
    cases htail with
    | cons hlt' htail =>
      rw [← hlo]
      refine .cons (by rw [hlo, hhi]; exact (hlt.trans_eq hc).trans hlt') ?_
      rw [hhi]
      exact htail

/-- An interval that starts where another ends is the next one. -/
theorem Span.adjacent (h : Span lo hi a l b) {i j : ι} (hmi : i ∈ l) (hj : j ∈ l)
    (heq : hi i = lo j) : ∃ front back, l = front ++ i :: j :: back := by
  obtain ⟨front, rest, rfl⟩ := List.append_of_mem hmi
  have hmem : j ∈ rest := by
    rcases List.mem_append.mp hj with hj | hj
    · have := (List.pairwise_append.mp h.ordered).2.2 j hj i List.mem_cons_self
      have hij := (h.bounds hmi).2.1
      have hjj := (h.bounds (List.mem_append_left _ hj)).2.1
      exact absurd ((hjj.trans_le this).trans hij) (by rw [heq]; exact lt_irrefl _)
    · rcases List.mem_cons.mp hj with rfl | hj
      · exact absurd heq (h.bounds hmi).2.1.ne'
      · exact hj
  obtain ⟨c, -, hr⟩ := span_append.mp h
  cases hr with
  | cons hlt htail =>
    rw [heq] at htail
    cases rest with
    | nil => simp at hmem
    | cons k rest =>
      refine ⟨front, rest, ?_⟩
      have hk : lo k = lo j := by
        generalize hd : lo j = d at htail
        cases htail
        rfl
      rw [htail.lo_injective List.mem_cons_self hmem hk]

/-- A point between the ends lies in an interval of the chain. -/
theorem Span.cover (h : Span lo hi a l b) {k : α} (hlo : a ≤ k) (hhi : k < b) :
    ∃ i ∈ l, lo i ≤ k ∧ k < hi i := by
  induction h with
  | nil => exact absurd (hlo.trans_lt hhi) (lt_irrefl _)
  | @cons i l b hlt htail ih =>
    by_cases hk : k < hi i
    · exact ⟨i, List.mem_cons_self, hlo, hk⟩
    · obtain ⟨j, hj, hin⟩ := ih (not_lt.mp hk) hhi
      exact ⟨j, List.mem_cons_of_mem i hj, hin⟩

/-- A point lies in one interval only. -/
theorem Span.cover_unique (h : Span lo hi a l b) {k : α} {i j : ι} (hmi : i ∈ l) (hj : j ∈ l)
    (hik : lo i ≤ k ∧ k < hi i) (hjk : lo j ≤ k ∧ k < hi j) : i = j := by
  induction h with
  | nil => simp at hmi
  | cons hlt htail ih =>
    rcases List.mem_cons.mp hmi with rfl | hil <;> rcases List.mem_cons.mp hj with rfl | hjl
    · rfl
    · exact absurd (hik.2.trans_le (htail.bounds hjl).1) (not_lt.mpr hjk.1)
    · exact absurd (hjk.2.trans_le (htail.bounds hil).1) (not_lt.mpr hik.1)
    · exact ih hil hjl

end

end IntervalChain
