import Mathlib.Algebra.Ring.Nat
import Mathlib.Data.List.Lex
import Mathlib.Data.List.Sort
import Mathlib.Tactic.Ring

/-!
# Ordered keys

Keys that start with fields of fixed length, then a number in big-endian digits, then more. In the
lexicographic order such keys stand by their first fields and, under one choice of these, by number,
so a stretch of the order holds the numbers from some value on.
-/
namespace OrderedKeys

/-! ## The lexicographic order -/

section
variable {α : Type*} [LinearOrder α]

theorem cons_lt_cons {a b : α} {x y : List α} : a :: x < b :: y ↔ a < b ∨ a = b ∧ x < y :=
  List.cons_lt_cons_iff

theorem cons_le_cons {a b : α} {x y : List α} : a :: x ≤ b :: y ↔ a < b ∨ a = b ∧ x ≤ y := by
  rw [← not_lt, cons_lt_cons]
  rcases lt_trichotomy a b with hlt | rfl | hgt
  · simp [hlt, hlt.not_gt, hlt.ne']
  · simp
  · simp [hgt, hgt.not_gt, hgt.ne']

theorem append_lt_append {a b : List α} (hlength : a.length = b.length) (h : a < b) (x y : List α) :
    a ++ x < b ++ y := by
  induction a generalizing b with
  | nil =>
    rw [List.length_eq_zero_iff.mp hlength.symm] at h
    exact absurd h (lt_irrefl _)
  | cons c a ih =>
    cases b with
    | nil => simp at hlength
    | cons d b =>
      rw [List.cons_append, List.cons_append, cons_lt_cons]
      rcases cons_lt_cons.mp h with hcd | ⟨hcd, hab⟩
      · exact .inl hcd
      · exact .inr ⟨hcd, ih (by simpa using hlength) hab⟩

theorem append_right_lt (a : List α) {x y : List α} : a ++ x < a ++ y ↔ x < y := by
  induction a with
  | nil => exact Iff.rfl
  | cons c a ih => simp [ih]

theorem append_right_le (a : List α) {x y : List α} : a ++ x ≤ a ++ y ↔ x ≤ y := by
  rw [← not_lt, ← not_lt, append_right_lt]

/-- Of two keys the first fields decide, and then the rest. -/
theorem append_le_append {a b : List α} (hlength : a.length = b.length) (x y : List α) :
    a ++ x ≤ b ++ y ↔ a < b ∨ a = b ∧ x ≤ y := by
  rcases lt_trichotomy a b with hlt | rfl | hgt
  · simp [hlt, (append_lt_append hlength hlt x y).le]
  · simp [append_right_le]
  · have hnot : ¬ a ++ x ≤ b ++ y := not_le.mpr (append_lt_append hlength.symm hgt y x)
    simp [hnot, hgt.not_gt, hgt.ne']

/-- Fields of the same lengths one after the other compare as the fields do. -/
theorem flatten_le_flatten {xs ys : List (List α)}
    (h : xs.map List.length = ys.map List.length) : xs.flatten ≤ ys.flatten ↔ xs ≤ ys := by
  induction xs generalizing ys with
  | nil =>
    have hys : ys = [] := by simpa using h.symm
    rw [hys]
    exact ⟨fun _ => le_rfl, fun _ => le_rfl⟩
  | cons x xs ih =>
    cases ys with
    | nil => simp at h
    | cons y ys =>
      obtain ⟨hfirst, hrest⟩ := List.cons.inj h
      rw [List.flatten_cons, List.flatten_cons, append_le_append hfirst, ih hrest]
      exact cons_le_cons.symm

/-- What lies between a key that is cut after its digits and the last such key. -/
theorem between_iff {p q from' digits last rest : List α} (hlead : p.length = q.length)
    (hfrom : from'.length = digits.length) (hlast : digits.length = last.length) :
    q ++ from' ≤ p ++ (digits ++ rest) ∧ p ++ (digits ++ rest) ≤ q ++ last ↔
      p = q ∧ from' ≤ digits ∧ (digits < last ∨ digits = last ∧ rest = []) := by
  have hstart : from' ≤ digits ++ rest ↔ from' ≤ digits := by
    have h := append_le_append hfrom [] rest
    rw [List.append_nil] at h
    rw [h, le_iff_lt_or_eq (a := from')]
    exact or_congr Iff.rfl ⟨And.left, fun heq => ⟨heq, not_lt.mp (by simp)⟩⟩
  have hend : digits ++ rest ≤ last ↔ digits < last ∨ digits = last ∧ rest = [] := by
    have h := append_le_append hlast rest []
    rw [List.append_nil] at h
    rw [h]
    refine or_congr Iff.rfl (and_congr Iff.rfl ⟨fun hnil => ?_, fun heq => heq ▸ le_rfl⟩)
    cases rest with
    | nil => rfl
    | cons c rest => exact absurd hnil (not_le.mpr (by simp))
  rw [append_le_append hlead.symm, append_le_append hlead, hstart, hend]
  constructor
  · rintro ⟨hqp | ⟨rfl, hle⟩, hpq | ⟨heq, hafter⟩⟩
    · exact absurd (hqp.trans hpq) (lt_irrefl _)
    · exact absurd (heq ▸ hqp) (lt_irrefl _)
    · exact absurd hpq (lt_irrefl _)
    · exact ⟨rfl, hle, hafter⟩
  · rintro ⟨rfl, hle, hafter⟩
    exact ⟨.inr ⟨rfl, hle⟩, .inr ⟨rfl, hafter⟩⟩

end

/-! ## Digits -/

/-- The low `n` digits, the highest first. -/
def bigEndian (base : ℕ) : ℕ → ℕ → List ℕ
  | 0, _ => []
  | n + 1, v => v / base ^ n % base :: bigEndian base n v

@[simp] theorem length_bigEndian (base n v : ℕ) : (bigEndian base n v).length = n := by
  induction n with
  | zero => rfl
  | succ n ih => simp [bigEndian, ih]

theorem bigEndian_mod (base n v : ℕ) : bigEndian base n (v % base ^ n) = bigEndian base n v := by
  have hlow : ∀ k m, k ≤ m → bigEndian base k (v % base ^ m) = bigEndian base k v := by
    intro k
    induction k with
    | zero => exact fun _ _ => rfl
    | succ k ih =>
      intro m hm
      have hsplit : base ^ m = base ^ k * (base * base ^ (m - k - 1)) := by
        rw [← pow_succ', ← pow_add]
        congr 1
        omega
      rw [bigEndian, bigEndian, ih m (by omega), hsplit, Nat.mod_mul_right_div_self,
        Nat.mod_mul_right_mod]
  exact hlow n n le_rfl

/-- The digits read back. -/
def value (base : ℕ) (ds : List ℕ) : ℕ := ds.foldl (fun v d => base * v + d) 0

theorem value_bigEndian (base n v : ℕ) : value base (bigEndian base n v) = v % base ^ n := by
  have hfold : ∀ k a, (bigEndian base k v).foldl (fun v d => base * v + d) a =
      base ^ k * a + v % base ^ k := by
    intro k
    induction k with
    | zero => simp [bigEndian, Nat.mod_one]
    | succ k ih =>
      intro a
      have hsplit : v % base ^ (k + 1) = v % base ^ k + base ^ k * (v / base ^ k % base) := by
        rw [pow_succ, Nat.mod_mul]
      rw [bigEndian, List.foldl_cons, ih, hsplit]
      ring
  rw [value, hfold, Nat.mul_zero, Nat.zero_add]

/-- Smaller numbers have smaller digits. -/
theorem bigEndian_lt {base n v w : ℕ} (h : v < w) (hw : w < base ^ n) :
    bigEndian base n v < bigEndian base n w := by
  induction n generalizing v w with
  | zero =>
    rw [pow_zero] at hw
    omega
  | succ n ih =>
    have hpos : 0 < base ^ n := by
      rcases Nat.eq_zero_or_pos (base ^ n) with hzero | hpos
      · rw [pow_succ, hzero, Nat.zero_mul] at hw
        omega
      · exact hpos
    have hhigh : w / base ^ n < base := by
      rw [Nat.div_lt_iff_lt_mul hpos]
      rwa [pow_succ, Nat.mul_comm] at hw
    have hle : v / base ^ n ≤ w / base ^ n := Nat.div_le_div_right h.le
    rw [bigEndian, bigEndian, cons_lt_cons, Nat.mod_eq_of_lt hhigh, Nat.mod_eq_of_lt (by omega)]
    rcases hle.lt_or_eq with hlt | heq
    · exact .inl hlt
    · -- the first digits agree, so the remainders decide
      refine .inr ⟨heq, ?_⟩
      have hv := Nat.div_add_mod v (base ^ n)
      have hw' := Nat.div_add_mod w (base ^ n)
      rw [heq] at hv
      rw [← bigEndian_mod base n v, ← bigEndian_mod base n w]
      exact ih (by omega) (Nat.mod_lt w hpos)

theorem bigEndian_le_iff {base n v w : ℕ} (hv : v < base ^ n) (hw : w < base ^ n) :
    bigEndian base n v ≤ bigEndian base n w ↔ v ≤ w := by
  constructor
  · intro h
    by_contra hlt
    exact absurd h (not_le.mpr (bigEndian_lt (not_le.mp hlt) hv))
  · intro h
    rcases h.lt_or_eq with hlt | rfl
    · exact (bigEndian_lt hlt hw).le
    · exact le_rfl

theorem bigEndian_inj {base n v w : ℕ} (hv : v < base ^ n) (hw : w < base ^ n)
    (h : bigEndian base n v = bigEndian base n w) : v = w :=
  le_antisymm ((bigEndian_le_iff hv hw).mp h.le) ((bigEndian_le_iff hw hv).mp h.ge)

/-- The largest number has the largest digits. -/
theorem bigEndian_last {base : ℕ} (hbase : 0 < base) (n : ℕ) :
    bigEndian base n (base ^ n - 1) = List.replicate n (base - 1) := by
  induction n with
  | zero => rfl
  | succ n ih =>
    have hpos : 0 < base ^ n := Nat.pow_pos hbase
    have hvalue : base ^ (n + 1) - 1 = base ^ n * (base - 1) + (base ^ n - 1) := by
      obtain ⟨b, rfl⟩ := Nat.exists_eq_succ_of_ne_zero hbase.ne'
      rw [Nat.succ_eq_add_one] at hpos ⊢
      rw [pow_succ, Nat.add_sub_cancel, Nat.mul_add, Nat.mul_one]
      omega
    have hdiv : (base ^ (n + 1) - 1) / base ^ n = base - 1 := by
      rw [hvalue, Nat.mul_add_div hpos, Nat.div_eq_of_lt (by omega), Nat.add_zero]
    have hmod : (base ^ (n + 1) - 1) % base ^ n = base ^ n - 1 := by
      rw [hvalue, Nat.mul_add_mod, Nat.mod_eq_of_lt (by omega)]
    rw [bigEndian, hdiv, Nat.mod_eq_of_lt (by omega), ← bigEndian_mod, hmod, ih, List.replicate_succ]

end OrderedKeys
