import Mathlib.Tactic

/-!
# Knockout tournaments

The seats of a draw meet in pairs, and the winners of two neighbouring matches meet in the next
round. Nobody stops twice: a player has at most one match that the player has not won.
-/
namespace Knockout

structure Match (P : Type*) where
  home : P
  away : P
  winner : Option P

def Match.Has {P : Type*} (m : Match P) (p : P) : Prop := p = m.home ∨ p = m.away

/-- The matches by round, from 1 on, and index. -/
abbrev Draw (P : Type*) := ℕ → ℕ → Option (Match P)

section
variable {P : Type*} (rounds : ℕ) (seats : ℕ → Option P) (d : Draw P)

/-- The match has a winner. -/
def Over (r i : ℕ) : Prop := ∃ p, (d r i).bind Match.winner = some p

structure Played : Prop where
  seated : ∀ i j p, seats i = some p → seats j = some p → i = j
  rounds : ∀ r i m, d r i = some m → 1 ≤ r ∧ r ≤ rounds
  first : ∀ i m, d 1 i = some m → seats (2 * i) = some m.home ∧ seats (2 * i + 1) = some m.away
  next : ∀ r i m, d (r + 1) i = some m → 1 ≤ r → ∃ a b, (d r (2 * i)).bind Match.winner = some a ∧
    (d r (2 * i + 1)).bind Match.winner = some b ∧
    (m.home = a ∧ m.away = b ∨ m.home = b ∧ m.away = a)
  winner : ∀ r i m p, d r i = some m → m.winner = some p → m.Has p

end

section
variable {P : Type*} {rounds : ℕ} {seats : ℕ → Option P} {d : Draw P}

theorem exists_match {r i : ℕ} {p : P} (h : (d r i).bind Match.winner = some p) :
    ∃ m, d r i = some m ∧ m.winner = some p := by
  cases hm : d r i with
  | none => rw [hm] at h; cases h
  | some m =>
    rw [hm] at h
    exact ⟨m, rfl, h⟩

/-- Who plays in a round won the feeding match, or sits there in round 1. -/
theorem Played.feeds (h : Played rounds seats d) {r i : ℕ} {m : Match P} (hm : d (r + 1) i = some m)
    (hr : 1 ≤ r) {p : P} (hp : m.Has p) :
    ∃ j, j / 2 = i ∧ ∃ m', d r j = some m' ∧ m'.winner = some p := by
  obtain ⟨a, b, ha, hb, hab⟩ := h.next r i m hm hr
  have hcase : p = a ∨ p = b := by
    rcases hab with ⟨h1, h2⟩ | ⟨h1, h2⟩ <;> rcases hp with rfl | rfl <;> simp [h1, h2]
  rcases hcase with rfl | rfl
  · exact ⟨2 * i, by omega, exists_match ha⟩
  · exact ⟨2 * i + 1, by omega, exists_match hb⟩

/-- A player's matches lie on the path from the player's seat. -/
theorem Played.path (h : Played rounds seats d) {r i : ℕ} {m : Match P} (hm : d r i = some m) {p : P}
    (hp : m.Has p) : ∃ s, seats s = some p ∧ s / 2 ^ r = i := by
  obtain ⟨hr, -⟩ := h.rounds r i m hm
  induction r, hr using Nat.le_induction generalizing i m with
  | base =>
    obtain ⟨hhome, haway⟩ := h.first i m hm
    rcases hp with rfl | rfl
    · exact ⟨2 * i, hhome, by omega⟩
    · exact ⟨2 * i + 1, haway, by omega⟩
  | succ r hr ih =>
    obtain ⟨j, hj, m', hm', hwin⟩ := h.feeds hm hr hp
    obtain ⟨s, hs, hpath⟩ := ih hm' (h.winner r j m' p hm' hwin)
    refine ⟨s, hs, ?_⟩
    rw [pow_succ, ← Nat.div_div_eq_div_mul, hpath, hj]

theorem Played.index (h : Played rounds seats d) {r i s : ℕ} {m : Match P} (hm : d r i = some m)
    {p : P} (hp : m.Has p) (hs : seats s = some p) : i = s / 2 ^ r := by
  obtain ⟨s', hs', hpath⟩ := h.path hm hp
  rw [← hpath, h.seated s s' p hs hs']

/-- Who plays in a round has won in every round before it. -/
theorem Played.won_below (h : Played rounds seats d) {r r' i : ℕ} {m : Match P} (hm : d r' i = some m)
    {p : P} (hp : m.Has p) (hr : 1 ≤ r) (hlt : r < r') :
    ∃ j m', d r j = some m' ∧ m'.winner = some p := by
  induction r', hlt using Nat.le_induction generalizing i m with
  | base =>
    obtain ⟨j, -, hj⟩ := h.feeds hm hr hp
    exact ⟨j, hj⟩
  | succ r' hlt ih =>
    obtain ⟨j, -, m', hm', hwin⟩ := h.feeds hm (by omega) hp
    exact ih hm' (h.winner r' j m' p hm' hwin)

/-- A player has one match a round. -/
theorem Played.round_unique (h : Played rounds seats d) {r i j : ℕ} {m m' : Match P}
    (hm : d r i = some m) (hm' : d r j = some m') {p : P} (hp : m.Has p) (hp' : m'.Has p) : i = j := by
  obtain ⟨s, hs, -⟩ := h.path hm hp
  rw [h.index hm hp hs, h.index hm' hp' hs]

/-- A match not won ends a player's way. -/
theorem Played.last (h : Played rounds seats d) {r r' i i' : ℕ} {m m' : Match P}
    (hm : d r i = some m) (hm' : d r' i' = some m') {p : P} (hp : m.Has p) (hp' : m'.Has p)
    (hwin : m.winner ≠ some p) : r' ≤ r := by
  by_contra hlt
  rw [not_le] at hlt
  obtain ⟨hr, -⟩ := h.rounds r i m hm
  obtain ⟨j, m₀, hm₀, hwin₀⟩ := h.won_below hm' hp' hr hlt
  obtain rfl := h.round_unique hm hm₀ hp (h.winner r j m₀ p hm₀ hwin₀)
  rw [hm, Option.some.injEq] at hm₀
  exact hwin (hm₀ ▸ hwin₀)

/-- Nobody stops twice. -/
theorem Played.stop_unique (h : Played rounds seats d) {r r' i i' : ℕ} {m m' : Match P}
    (hm : d r i = some m) (hm' : d r' i' = some m') {p : P} (hp : m.Has p) (hp' : m'.Has p)
    (hwin : m.winner ≠ some p) (hwin' : m'.winner ≠ some p) : r = r' ∧ i = i' := by
  obtain rfl : r = r' := le_antisymm (h.last hm' hm hp' hp hwin') (h.last hm hm' hp hp' hwin)
  exact ⟨rfl, h.round_unique hm hm' hp hp'⟩

theorem Played.home_ne_away (h : Played rounds seats d) {r i : ℕ} {m : Match P}
    (hm : d r i = some m) : m.home ≠ m.away := by
  obtain ⟨hr, -⟩ := h.rounds r i m hm
  intro heq
  rcases Nat.eq_or_lt_of_le hr with rfl | hr
  · obtain ⟨hhome, haway⟩ := h.first i m hm
    have hsame := h.seated _ _ _ hhome (heq ▸ haway)
    omega
  · obtain ⟨r, rfl⟩ : ∃ k, r = k + 1 := ⟨r - 1, by omega⟩
    obtain ⟨a, b, ha, hb, hab⟩ := h.next r i m hm (by omega)
    obtain rfl : a = b := by
      rcases hab with ⟨rfl, rfl⟩ | ⟨rfl, rfl⟩
      · exact heq
      · exact heq.symm
    obtain ⟨m₁, hm₁, hwin₁⟩ := exists_match ha
    obtain ⟨m₂, hm₂, hwin₂⟩ := exists_match hb
    have hsame := h.round_unique hm₁ hm₂ (h.winner _ _ _ _ hm₁ hwin₁) (h.winner _ _ _ _ hm₂ hwin₂)
    omega

/-- The winner of the last round has won every match. -/
theorem Played.champion_unbeaten (h : Played rounds seats d) {i r j : ℕ} {f m : Match P} {p : P}
    (hf : d rounds i = some f) (hchampion : f.winner = some p) (hm : d r j = some m) (hp : m.Has p) :
    m.winner = some p := by
  by_contra hwin
  have hlast := h.last hm hf hp (h.winner _ _ _ _ hf hchampion) hwin
  obtain ⟨-, hr⟩ := h.rounds r j m hm
  obtain rfl : r = rounds := le_antisymm hr hlast
  obtain rfl := h.round_unique hm hf hp (h.winner _ _ _ _ hf hchampion)
  rw [hm, Option.some.injEq] at hf
  exact hwin (hf ▸ hchampion)

/-- When a match is played, all that feed it are over. -/
theorem Played.all_over (h : Played rounds seats d) {r k i j : ℕ} (hover : Over d (r + k) i)
    (hr : 1 ≤ r) (hj : j / 2 ^ k = i) : Over d r j := by
  induction k generalizing i j with
  | zero =>
    rw [pow_zero, Nat.div_one] at hj
    exact hj ▸ hover
  | succ k ih =>
    obtain ⟨p, hp⟩ := hover
    obtain ⟨m, hm, -⟩ := exists_match hp
    obtain ⟨a, b, ha, hb, -⟩ := h.next (r + k) i m hm (by omega)
    rw [pow_succ, ← Nat.div_div_eq_div_mul] at hj
    have hhalf : j / 2 ^ k = 2 * i ∨ j / 2 ^ k = 2 * i + 1 := by omega
    rcases hhalf with hj | hj
    · exact ih ⟨a, ha⟩ hj
    · exact ih ⟨b, hb⟩ hj

/-- Once the last match has a winner, every match has one. -/
theorem Played.final_over (h : Played rounds seats d) (hseats : ∀ s p, seats s = some p → s < 2 ^ rounds)
    (hfinal : Over d rounds 0) {r i : ℕ} {m : Match P} (hm : d r i = some m) : Over d r i := by
  obtain ⟨hr, hle⟩ := h.rounds r i m hm
  obtain ⟨s, hs, hpath⟩ := h.path hm (.inl rfl)
  obtain ⟨k, rfl⟩ := Nat.exists_eq_add_of_le hle
  refine h.all_over hfinal hr ?_
  rw [← hpath, Nat.div_div_eq_div_mul, ← pow_add]
  exact Nat.div_eq_of_lt (hseats s _ hs)

end

end Knockout
