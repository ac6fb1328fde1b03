import KaChatIndexer.FinmapPatch
import Mathlib.Data.Finset.Lattice.Lemmas
import Mathlib.Algebra.BigOperators.Group.Finset.Basic
import Mathlib.Tactic

/-!
# Tallies by key

Credits are booked one by one on the row of their key, and a missing row is opened first. What a
counter of a row shows is the sum of its credits, and over all rows that of all credits. The values
of a map may come in any order of its keys.
-/
namespace KeyedTally

section
variable {K β : Type*} [DecidableEq K]

/-- The order in which a map is iterated: its keys, each once. -/
def KeyOrder (K β : Type*) [DecidableEq K] : Type _ :=
  (m : Finmap fun _ : K => β) → { l : List K // l.Nodup ∧ ∀ k, k ∈ l ↔ k ∈ m }

instance : Nonempty (KeyOrder K β) :=
  ⟨fun m => ⟨m.keys.toList, Finset.nodup_toList _, fun k => by rw [Finset.mem_toList, Finmap.mem_keys]⟩⟩

def values (order : KeyOrder K β) (m : Finmap fun _ : K => β) : List β :=
  (order m).1.filterMap m.lookup

/-- A sum over the values of a map. -/
def sumValues (f : β → ℕ) (m : Finmap fun _ : K => β) : ℕ :=
  ∑ k ∈ m.keys, ((m.lookup k).map f).getD 0

variable {order : KeyOrder K β} {m : Finmap fun _ : K => β} {f : β → ℕ}

theorem mem_values {v : β} : v ∈ values order m ↔ ∃ k, m.lookup k = some v := by
  unfold values
  rw [List.mem_filterMap]
  constructor
  · rintro ⟨k, -, hk⟩
    exact ⟨k, hk⟩
  · rintro ⟨k, hk⟩
    exact ⟨k, ((order m).2.2 k).mpr (Finmap.mem_of_lookup_eq_some hk), hk⟩

theorem sum_filterMap (keys : List K) (hkeys : ∀ k ∈ keys, k ∈ m) (f : β → ℕ) :
    ((keys.filterMap m.lookup).map f).sum =
      (keys.map fun k => ((m.lookup k).map f).getD 0).sum := by
  induction keys with
  | nil => rfl
  | cons k keys ih =>
    obtain ⟨v, hv⟩ := Finmap.mem_iff.mp (hkeys k List.mem_cons_self)
    rw [List.filterMap_cons, hv, List.map_cons, List.sum_cons, List.map_cons, List.sum_cons,
      ih fun k hk => hkeys k (List.mem_cons_of_mem _ hk), hv]
    rfl

/-- The sum does not depend on the order of the values. -/
theorem sum_values (order : KeyOrder K β) (m : Finmap fun _ : K => β) (f : β → ℕ) :
    ((values order m).map f).sum = sumValues f m := by
  obtain ⟨hnodup, hmem⟩ := (order m).2
  unfold values sumValues
  rw [sum_filterMap _ fun k hk => (hmem k).mp hk, ← List.sum_toFinset _ hnodup]
  refine Finset.sum_congr (Finset.ext fun k => ?_) fun _ _ => rfl
  rw [List.mem_toFinset, hmem, Finmap.mem_keys]

theorem sumValues_erase {k : K} {v : β} (h : m.lookup k = some v) :
    sumValues f m = sumValues f (m.erase k) + f v := by
  unfold sumValues
  have hkey : k ∈ m.keys := Finmap.mem_keys.mpr (Finmap.mem_of_lookup_eq_some h)
  rw [Finmap.keys_erase, ← Finset.sum_erase_add _ _ hkey, h]
  congr 1
  refine Finset.sum_congr rfl fun k' hk' => ?_
  rw [Finmap.lookup_erase_ne (Finset.ne_of_mem_erase hk')]

theorem sumValues_zero (h : ∀ k v, m.lookup k = some v → f v = 0) : sumValues f m = 0 := by
  refine Finset.sum_eq_zero fun k _ => ?_
  cases hk : m.lookup k with
  | none => rfl
  | some v => exact h k v hk

/-- Only one value counts. -/
theorem sumValues_single {k : K} {v : β} (hk : m.lookup k = some v)
    (hother : ∀ k' v', m.lookup k' = some v' → k' ≠ k → f v' = 0) : sumValues f m = f v := by
  rw [sumValues_erase hk, sumValues_zero, Nat.zero_add]
  intro k' v' hk'
  rw [FinmapPatch.lookup_erase_of] at hk'
  split_ifs at hk' with hne
  exact hother k' v' hk' hne

theorem sumValues_congr {g : β → ℕ} (h : ∀ k v, m.lookup k = some v → f v = g v) :
    sumValues f m = sumValues g m := by
  refine Finset.sum_congr rfl fun k _ => ?_
  cases hk : m.lookup k with
  | none => rfl
  | some v => exact h k v hk

end

section
variable {K D R : Type*} [DecidableEq K]

/-- Book credits on the rows of their keys. -/
def book (new : K → R) (apply : D → R → R) (rows : Finmap fun _ : K => R) (credits : List (K × D)) :
    Finmap fun _ : K => R :=
  credits.foldl (fun rows c => rows.insert c.1 (apply c.2 ((rows.lookup c.1).getD (new c.1)))) rows

/-- What the credits add to a counter of the row at `k`. -/
def countAt (δ : D → ℕ) (credits : List (K × D)) (k : K) : ℕ :=
  (credits.map fun c => if c.1 = k then δ c.2 else 0).sum

variable {new : K → R} {apply : D → R → R} {credits : List (K × D)} {k : K}

theorem book_append (rows : Finmap fun _ : K => R) (credits more : List (K × D)) :
    book new apply rows (credits ++ more) = book new apply (book new apply rows credits) more :=
  List.foldl_append ..

/-- A row is there once it has a credit. -/
theorem mem_book : k ∈ book new apply ∅ credits ↔ ∃ c ∈ credits, c.1 = k := by
  induction credits using List.reverseRecOn with
  | nil => simp [book, Finmap.notMem_empty]
  | append_singleton credits c ih =>
    rw [book_append]
    change k ∈ (book new apply ∅ credits).insert c.1 _ ↔ _
    rw [Finmap.mem_insert, ih]
    simp [or_comm, eq_comm, or_and_right, exists_or]

/-- A counter that every credit raises by `δ` shows the sum of the credits of its row. -/
theorem count_book {δ : D → ℕ} {count : R → ℕ} (hnew : ∀ k, count (new k) = 0)
    (happly : ∀ d r, count (apply d r) = count r + δ d) {r : R}
    (hr : (book new apply ∅ credits).lookup k = some r) : count r = countAt δ credits k := by
  have hall : count (((book new apply ∅ credits).lookup k).getD (new k)) = countAt δ credits k := by
    clear hr
    induction credits using List.reverseRecOn with
    | nil => exact hnew k
    | append_singleton credits c ih =>
      rw [book_append]
      change count (Option.getD (((book new apply ∅ credits).insert c.1 _).lookup k) _) = _
      unfold countAt at ih ⊢
      rw [FinmapPatch.lookup_insert_of, List.map_append, List.sum_append, ← ih]
      by_cases hk : k = c.1
      · subst hk
        simp [happly]
      · simp [hk, Ne.symm hk]
  rwa [hr] at hall

/-- What every credit keeps of a row. -/
theorem book_induction {P : K → R → Prop} (hnew : ∀ k, P k (new k))
    (happly : ∀ k d r, P k r → P k (apply d r)) {r : R}
    (hr : (book new apply ∅ credits).lookup k = some r) : P k r := by
  induction credits using List.reverseRecOn generalizing k r with
  | nil => cases hr
  | append_singleton credits c ih =>
    rw [book_append] at hr
    change ((book new apply ∅ credits).insert c.1 _).lookup k = some r at hr
    rw [FinmapPatch.lookup_insert_of] at hr
    split_ifs at hr with hk
    · obtain rfl := Option.some.inj hr
      subst hk
      refine happly _ _ _ ?_
      cases hold : (book new apply ∅ credits).lookup c.1 with
      | none => exact hnew c.1
      | some r => exact ih hold
    · exact ih hr

theorem countAt_append (δ : D → ℕ) (credits more : List (K × D)) (k : K) :
    countAt δ (credits ++ more) k = countAt δ credits k + countAt δ more k := by
  unfold countAt
  rw [List.map_append, List.sum_append]

theorem countAt_flatMap {T : Type*} (δ : D → ℕ) (creditsOf : T → List (K × D)) (ts : List T) (k : K) :
    countAt δ (ts.flatMap creditsOf) k = (ts.map fun t => countAt δ (creditsOf t) k).sum := by
  induction ts with
  | nil => rfl
  | cons t ts ih =>
    rw [List.flatMap_cons, countAt_append, ih, List.map_cons, List.sum_cons]

/-- Every credit is counted at one key. -/
theorem sum_countAt (δ : D → ℕ) {keys : List K} (hnodup : keys.Nodup)
    (hkeys : ∀ c ∈ credits, c.1 ∈ keys) :
    (keys.map (countAt δ credits)).sum = (credits.map fun c => δ c.2).sum := by
  induction credits with
  | nil =>
    unfold countAt
    simp
  | cons c credits ih =>
    have hsplit : keys.map (countAt δ (c :: credits)) =
        keys.map fun k => (if c.1 = k then δ c.2 else 0) + countAt δ credits k := by
      refine List.map_congr_left fun k _ => ?_
      unfold countAt
      rw [List.map_cons, List.sum_cons]
    rw [hsplit, List.sum_map_add, ih fun c' hc' => hkeys c' (List.mem_cons_of_mem _ hc'),
      List.map_cons, List.sum_cons]
    congr 1
    rw [← List.sum_toFinset _ hnodup, Finset.sum_ite_eq, if_pos]
    exact List.mem_toFinset.mpr (hkeys c List.mem_cons_self)

/-- Over all rows a counter shows the sum of all credits. -/
theorem sum_book {δ : D → ℕ} {count : R → ℕ} (hnew : ∀ k, count (new k) = 0)
    (happly : ∀ d r, count (apply d r) = count r + δ d) (order : KeyOrder K R) :
    ((values order (book new apply ∅ credits)).map count).sum =
      (credits.map fun c => δ c.2).sum := by
  obtain ⟨hnodup, hmem⟩ := (order (book new apply ∅ credits)).2
  unfold values
  rw [sum_filterMap _ fun k hk => (hmem k).mp hk,
    ← sum_countAt δ hnodup fun c hc => (hmem c.1).mpr (mem_book.mpr ⟨c, hc, rfl⟩)]
  congr 1
  refine List.map_congr_left fun k hk => ?_
  obtain ⟨r, hr⟩ := Finmap.mem_iff.mp ((hmem k).mp hk)
  rw [hr, ← count_book hnew happly hr]
  rfl

end

end KeyedTally
