import Mathlib.Data.Finset.Card
import Mathlib.Data.List.Sort
import Mathlib.Data.List.Nodup
import Mathlib.Data.Finset.Image

/-!
# The newest row of each key

Rows sorted the newest first, and of each key the first row. Where no two rows have the same rank, a
row stands for its key exactly when no row of the key ranks above it.
-/
namespace NewestRow

variable {α κ τ : Type*}

/-- The first row of each key. -/
def distinctOn [DecidableEq κ] (key : α → κ) : List α → List α
  | [] => []
  | a :: l => a :: (distinctOn key l).filter fun b => key b ≠ key a

section
variable [DecidableEq κ] {key : α → κ}

theorem nodup_distinctOn (l : List α) : ((distinctOn key l).map key).Nodup := by
  induction l with
  | nil => simp [distinctOn]
  | cons a l ih =>
    rw [distinctOn, List.map_cons, List.nodup_cons]
    constructor
    · intro hmem
      obtain ⟨b, hb, hkey⟩ := List.mem_map.mp hmem
      simpa [hkey] using (List.mem_filter.mp hb).2
    · exact (List.filter_sublist.map key).nodup ih

/-- A row stands for its key exactly when it is the first of it. -/
theorem mem_distinctOn {l : List α} {a : α} :
    a ∈ distinctOn key l ↔ (l.filter fun b => key b = key a).head? = some a := by
  induction l with
  | nil => simp [distinctOn]
  | cons b l ih =>
    rw [distinctOn, List.mem_cons, List.mem_filter, ih]
    by_cases hkey : key b = key a
    · rw [List.filter_cons_of_pos (by simpa using hkey)]
      simp [hkey, eq_comm]
    · rw [List.filter_cons_of_neg (by simpa using hkey)]
      have hne : a ≠ b := fun h => hkey (h ▸ rfl)
      simp [hne, Ne.symm hkey]

end

/-- No two rows have the same rank. -/
def Ranked (rank : α → τ) (l : List α) : Prop := ∀ a ∈ l, ∀ b ∈ l, rank a = rank b → a = b

theorem Ranked.filter {rank : α → τ} {l : List α} (h : Ranked rank l) (p : α → Bool) :
    Ranked rank (l.filter p) :=
  fun a ha b hb => h a (List.mem_filter.mp ha).1 b (List.mem_filter.mp hb).1

variable [LinearOrder τ] (rank : α → τ)

/-- `ORDER BY rank DESC`. -/
def newestFirst (l : List α) : List α := l.insertionSort fun a b => rank b ≤ rank a

def newest (l : List α) : Option α := (newestFirst rank l).head?

/-- `DISTINCT ON (key) ... ORDER BY rank DESC`. -/
def newestPerKey [DecidableEq κ] (key : α → κ) (l : List α) : List α :=
  distinctOn key (newestFirst rank l)

variable {rank}

theorem mem_newestFirst {l : List α} {a : α} : a ∈ newestFirst rank l ↔ a ∈ l :=
  (List.perm_insertionSort _ l).mem_iff

theorem sorted_newestFirst (l : List α) :
    (newestFirst rank l).Pairwise fun a b => rank b ≤ rank a :=
  List.pairwise_insertionSort _ l

/-- The head of a list that is sorted so. -/
theorem head_sorted {l : List α} {a : α} (hsort : l.Pairwise fun a b => rank b ≤ rank a)
    (hranked : Ranked rank l) : l.head? = some a ↔ a ∈ l ∧ ∀ b ∈ l, rank b ≤ rank a := by
  cases l with
  | nil => simp
  | cons c l =>
    rw [List.head?_cons, Option.some.injEq]
    constructor
    · rintro rfl
      refine ⟨List.mem_cons_self, fun b hb => ?_⟩
      rcases List.mem_cons.mp hb with rfl | hb
      · exact le_rfl
      · exact List.rel_of_pairwise_cons hsort hb
    · rintro ⟨ha, hmax⟩
      refine hranked c List.mem_cons_self a ha (le_antisymm (hmax c List.mem_cons_self) ?_)
      rcases List.mem_cons.mp ha with rfl | ha
      · exact le_rfl
      · exact List.rel_of_pairwise_cons hsort ha

theorem newest_eq_some {l : List α} {a : α} (hranked : Ranked rank l) :
    newest rank l = some a ↔ a ∈ l ∧ ∀ b ∈ l, rank b ≤ rank a := by
  rw [newest, head_sorted (sorted_newestFirst l)
    fun a ha b hb => hranked a (mem_newestFirst.mp ha) b (mem_newestFirst.mp hb)]
  simp only [mem_newestFirst]

theorem newest_mem {l : List α} {a : α} (h : newest rank l = some a) : a ∈ l :=
  mem_newestFirst.mp (List.mem_of_mem_head? h)

theorem newest_eq_none {l : List α} : newest rank l = none ↔ l = [] := by
  rw [newest, List.head?_eq_none_iff, List.eq_nil_iff_forall_not_mem, List.eq_nil_iff_forall_not_mem]
  simp only [mem_newestFirst]

/-- The newest row depends on which rows there are. -/
theorem newest_congr {l l' : List α} (hranked : Ranked rank l) (h : ∀ a, a ∈ l ↔ a ∈ l') :
    newest rank l = newest rank l' := by
  have hranked' : Ranked rank l' := fun a ha b hb => hranked a ((h a).mpr ha) b ((h b).mpr hb)
  refine Option.ext fun a => ?_
  rw [newest_eq_some hranked, newest_eq_some hranked', h]
  simp only [h]

section
variable [DecidableEq κ] {key : α → κ} {l : List α}

theorem mem_newestPerKey {a : α} (hranked : Ranked rank l) :
    a ∈ newestPerKey rank key l ↔ newest rank (l.filter fun b => key b = key a) = some a := by
  have hsorted : ((newestFirst rank l).filter fun b => key b = key a).Pairwise
      fun a b => rank b ≤ rank a := (sorted_newestFirst l).filter _
  have hranked' : Ranked rank ((newestFirst rank l).filter fun b => key b = key a) := by
    refine Ranked.filter (fun a ha b hb => ?_) _
    exact hranked a (mem_newestFirst.mp ha) b (mem_newestFirst.mp hb)
  rw [newestPerKey, mem_distinctOn, head_sorted hsorted hranked', newest_eq_some (hranked.filter _)]
  simp only [List.mem_filter, mem_newestFirst]

/-- Counting the rows that stand for their keys counts keys. -/
theorem countP_newestPerKey (hranked : Ranked rank l) (p : α → Bool) :
    (newestPerKey rank key l).countP p =
      ((l.map key).toFinset.filter fun k =>
        (newest rank (l.filter fun b => key b = k)).any p = true).card := by
  have hnodup : (((newestPerKey rank key l).filter p).map key).Nodup :=
    (List.filter_sublist.map key).nodup (nodup_distinctOn _)
  have hkeys : (((newestPerKey rank key l).filter p).map key).toFinset =
      (l.map key).toFinset.filter fun k =>
        (newest rank (l.filter fun b => key b = k)).any p = true := by
    ext k
    rw [List.mem_toFinset, List.mem_map, Finset.mem_filter, List.mem_toFinset, List.mem_map]
    constructor
    · rintro ⟨a, ha, rfl⟩
      obtain ⟨ha, hpa⟩ := List.mem_filter.mp ha
      have hnewest := (mem_newestPerKey hranked).mp ha
      exact ⟨⟨a, (List.mem_filter.mp (newest_mem hnewest)).1, rfl⟩, by simp [hnewest, hpa]⟩
    · rintro ⟨-, hany⟩
      obtain ⟨a, hnewest, hpa⟩ : ∃ a, newest rank (l.filter fun b => key b = k) = some a ∧ p a := by
        cases hnewest : newest rank (l.filter fun b => key b = k) with
        | none => simp [hnewest] at hany
        | some a => exact ⟨a, rfl, by simpa [hnewest] using hany⟩
      obtain ⟨-, hkey⟩ := List.mem_filter.mp (newest_mem hnewest)
      obtain rfl : key a = k := of_decide_eq_true hkey
      exact ⟨a, List.mem_filter.mpr ⟨(mem_newestPerKey hranked).mpr hnewest, hpa⟩, rfl⟩
  rw [List.countP_eq_length_filter, ← List.length_map (f := key),
    ← List.toFinset_card_of_nodup hnodup, hkeys]

end

end NewestRow
