import KaChatIndexer.ChessEngine
import KaChatIndexer.ChessGames

/-!
# Rays and attacks

The loops of the engine walk along a direction until they meet a man; the laws speak of the squares
between two squares. On the board these agree, so the engine's attacked squares are the attacked
squares of the position.
-/
namespace KaChatIndexer.ChessRays
open ChessPieces ChessEngine ChessLaws ChessGames

@[simp] theorem shift_shift (s : Square) (d : ℤ × ℤ) (a b : ℤ) :
    (s.shift d a).shift d b = s.shift d (a + b) := by
  simp only [Square.shift, Square.mk.injEq]
  constructor <;> ring

@[simp] theorem shift_zero (s : Square) (d : ℤ × ℤ) : s.shift d 0 = s := by simp [Square.shift]

/-- A direction of a diagonal or of a straight line. -/
def Oblique (d : ℤ × ℤ) : Prop := (d.1 = 1 ∨ d.1 = -1) ∧ (d.2 = 1 ∨ d.2 = -1)
def Upright (d : ℤ × ℤ) : Prop := (d.1 = 1 ∨ d.1 = -1) ∧ d.2 = 0 ∨ d.1 = 0 ∧ (d.2 = 1 ∨ d.2 = -1)

theorem mem_diagonalDirs {d : ℤ × ℤ} : d ∈ diagonalDirs ↔ Oblique d := by
  obtain ⟨a, b⟩ := d
  simp only [diagonalDirs, Oblique, List.mem_cons, Prod.mk.injEq, List.not_mem_nil, or_false]
  omega

theorem mem_straightDirs {d : ℤ × ℤ} : d ∈ straightDirs ↔ Upright d := by
  obtain ⟨a, b⟩ := d
  simp only [straightDirs, Upright, List.mem_cons, Prod.mk.injEq, List.not_mem_nil, or_false]
  omega

section
variable {s t u : Square} {d : ℤ × ℤ} {n : ℤ}

theorem sign_mul {n a : ℤ} (hn : 0 < n) (ha : a = 0 ∨ a = 1 ∨ a = -1) : (n * a).sign = a := by
  rcases ha with rfl | rfl | rfl
  · simp
  · simpa using Int.sign_eq_one_of_pos hn
  · simpa using Int.sign_eq_one_of_pos hn

theorem abs_mul_unit {n a : ℤ} (hn : 0 < n) (ha : a = 1 ∨ a = -1) : |n * a| = n := by
  rcases ha with rfl | rfl <;> simp [abs_of_pos hn]

/-- Between the ends of a ray lie its inner squares. -/
theorem between_shift (hd : Oblique d ∨ Upright d) (hn : 0 < n) :
    Between s (s.shift d n) u ↔ ∃ k, 0 < k ∧ k < n ∧ u = s.shift d k := by
  have hunit : (d.1 = 0 ∨ d.1 = 1 ∨ d.1 = -1) ∧ (d.2 = 0 ∨ d.2 = 1 ∨ d.2 = -1) := by
    unfold Oblique Upright at hd
    tauto
  have hmax : max |n * d.1| |n * d.2| = n := by
    rcases hd with ⟨h1, h2⟩ | ⟨h1, h2⟩ | ⟨h1, h2⟩
    · rw [abs_mul_unit hn h1, abs_mul_unit hn h2, max_self]
    · rw [abs_mul_unit hn h1, h2, mul_zero, abs_zero, max_eq_left hn.le]
    · rw [abs_mul_unit hn h2, h1, mul_zero, abs_zero, max_eq_right hn.le]
  unfold Between
  simp only [Square.shift, add_sub_cancel_left, sign_mul hn hunit.1, sign_mul hn hunit.2, hmax]

/-- Every diagonal is a ray of a diagonal direction. -/
theorem diagonal_iff : Diagonal s t ↔ ∃ d, Oblique d ∧ ∃ n, 0 < n ∧ t = s.shift d n := by
  constructor
  · rintro ⟨hne, habs⟩
    have hpos : 0 < |t.file - s.file| := by
      rw [abs_pos]
      intro h
      rw [h, abs_zero] at habs
      have hrank := abs_eq_zero.mp habs.symm
      exact hne (Square.ext_iff'.mpr ⟨by omega, by omega⟩)
    have hsign {a : ℤ} (ha : 0 < |a|) : (a.sign = 1 ∨ a.sign = -1) ∧ |a| * a.sign = a := by
      rcases lt_or_gt_of_ne (abs_pos.mp ha) with h | h
      · simp [Int.sign_eq_neg_one_of_neg h, abs_of_neg h]
      · simp [Int.sign_eq_one_of_pos h, abs_of_pos h]
    obtain ⟨hf, hfile⟩ := hsign hpos
    obtain ⟨hr, hrank⟩ := hsign (habs ▸ hpos)
    refine ⟨((t.file - s.file).sign, (t.rank - s.rank).sign), ⟨hf, hr⟩, _, hpos, ?_⟩
    rw [Square.ext_iff']
    simp only [Square.shift]
    rw [hfile, habs, hrank]
    omega
  · rintro ⟨d, hd, n, hn, rfl⟩
    refine ⟨fun h => ?_, ?_⟩
    · have hfile := congrArg Square.file h
      simp only [Square.shift] at hfile
      rcases hd.1 with h1 | h1 <;> rw [h1] at hfile <;> omega
    · simp only [Square.shift, add_sub_cancel_left]
      rw [abs_mul_unit hn hd.1, abs_mul_unit hn hd.2]

theorem straight_iff : Straight s t ↔ ∃ d, Upright d ∧ ∃ n, 0 < n ∧ t = s.shift d n := by
  constructor
  · rintro ⟨hne, hline⟩
    simp only [ne_eq, Square.ext_iff', not_and] at hne
    rcases hline with h | h
    · rcases lt_trichotomy t.rank s.rank with hlt | heq | hlt
      · refine ⟨(0, -1), by simp [Upright], s.rank - t.rank, by omega, ?_⟩
        rw [Square.ext_iff']
        simp only [Square.shift]
        omega
      · exact absurd heq.symm (hne h.symm)
      · refine ⟨(0, 1), by simp [Upright], t.rank - s.rank, by omega, ?_⟩
        rw [Square.ext_iff']
        simp only [Square.shift]
        omega
    · rcases lt_trichotomy t.file s.file with hlt | heq | hlt
      · refine ⟨(-1, 0), by simp [Upright], s.file - t.file, by omega, ?_⟩
        rw [Square.ext_iff']
        simp only [Square.shift]
        omega
      · exact absurd h.symm (hne heq.symm)
      · refine ⟨(1, 0), by simp [Upright], t.file - s.file, by omega, ?_⟩
        rw [Square.ext_iff']
        simp only [Square.shift]
        omega
  · rintro ⟨d, hd, n, hn, rfl⟩
    unfold Straight
    simp only [ne_eq, Square.ext_iff', Square.shift]
    rcases hd with ⟨h1 | h1, h2⟩ | ⟨h1, h2 | h2⟩ <;> rw [h1, h2] <;> omega

theorem shift_back : (s.shift d n).shift (-d) n = s := by
  rw [Square.ext_iff']
  simp [Square.shift]

theorem between_back (hd : Oblique d ∨ Upright d) (hn : 0 < n) :
    Between (s.shift d n) s u ↔ ∃ k, 0 < k ∧ k < n ∧ u = s.shift d k := by
  have hneg : Oblique (-d) ∨ Upright (-d) := by
    simp only [Oblique, Upright, Prod.fst_neg, Prod.snd_neg] at hd ⊢
    omega
  have h := @between_shift (s.shift d n) u (-d) n hneg hn
  rw [shift_back] at h
  have hback (k : ℤ) : (s.shift d n).shift (-d) k = s.shift d (n - k) := by
    rw [Square.ext_iff']
    simp only [Square.shift, Prod.fst_neg, Prod.snd_neg]
    constructor <;> ring
  rw [h]
  constructor
  · rintro ⟨k, hk, hkn, rfl⟩
    exact ⟨n - k, by omega, by omega, hback k⟩
  · rintro ⟨k, hk, hkn, rfl⟩
    exact ⟨n - k, by omega, by omega, by rw [hback, sub_sub_cancel]⟩

theorem diagonal_symm (h : Diagonal s t) : Diagonal t s :=
  ⟨h.1.symm, by rw [abs_sub_comm, h.2, abs_sub_comm]⟩

theorem straight_symm (h : Straight s t) : Straight t s := ⟨h.1.symm, h.2.imp Eq.symm Eq.symm⟩

theorem clear_symm {men : Men} (hline : Diagonal s t ∨ Straight s t) (h : Clear men s t) :
    Clear men t s := by
  intro u hu
  have hray : ∃ d, (Oblique d ∨ Upright d) ∧ ∃ n, 0 < n ∧ t = s.shift d n := by
    rcases hline with hline | hline
    · obtain ⟨d, hd, hn⟩ := diagonal_iff.mp hline
      exact ⟨d, .inl hd, hn⟩
    · obtain ⟨d, hd, hn⟩ := straight_iff.mp hline
      exact ⟨d, .inr hd, hn⟩
  obtain ⟨d, hd, n, hn, rfl⟩ := hray
  exact h u ((between_shift hd hn).mpr ((between_back hd hn).mp hu))

end

/-- The board shows the men of the position. -/
def ShowsMen (b : Board) (men : Men) : Prop := ∀ s, b.pieceAt s = pieceOn men s

section
variable {b : Board} {men : Men} {s t : Square} {d : ℤ × ℤ} {color : Color}

theorem valid_of_pieceAt {p : Piece} (h : b.pieceAt s = some p) : s.isValid = true := by
  unfold Board.pieceAt at h
  split_ifs at h with hs
  exact hs

/-- A walk from `s` that meets no man before its `n`th step. -/
def Walk (b : Board) (d : ℤ × ℤ) (s : Square) (n : ℕ) : Prop :=
  ∀ j : ℕ, j < n → (s.shift d j).isValid = true ∧ b.pieceAt (s.shift d j) = none

theorem walk_succ {n : ℕ} : Walk b d s (n + 1) ↔
    (s.isValid = true ∧ b.pieceAt s = none) ∧ Walk b d (s.shift d 1) n := by
  have hshift (j : ℕ) : (s.shift d 1).shift d j = s.shift d ((j + 1 : ℕ) : ℤ) := by
    rw [shift_shift, add_comm]
    rfl
  constructor
  · intro h
    refine ⟨by simpa using h 0 n.succ_pos, fun j hj => ?_⟩
    rw [hshift]
    exact h (j + 1) (by omega)
  · rintro ⟨h0, h⟩ j hj
    cases j with
    | zero => simpa using h0
    | succ j =>
      rw [← hshift]
      exact h j (by omega)

theorem slidingLoop_iff {types : List PieceType} {fuel : ℕ} :
    slidingLoop d b color types fuel s = true ↔
      ∃ n < fuel, Walk b d s n ∧ ∃ p, b.pieceAt (s.shift d n) = some p ∧ p.color = color ∧
        p.pieceType ∈ types := by
  induction fuel generalizing s with
  | zero => simp [slidingLoop]
  | succ fuel ih =>
    have hzero : Walk b d s 0 := fun j hj => absurd hj j.not_lt_zero
    unfold slidingLoop
    constructor
    · intro h
      split_ifs at h with hvalid
      split at h
      · next p hp =>
        refine ⟨0, fuel.succ_pos, hzero, p, by simpa using hp, ?_⟩
        simpa using h
      · next hp =>
        obtain ⟨n, hn, hwalk, p, hp', hcolor, htype⟩ := ih.mp h
        refine ⟨n + 1, by omega, walk_succ.mpr ⟨⟨hvalid, hp⟩, hwalk⟩, p, ?_, hcolor, htype⟩
        rw [← hp', shift_shift, add_comm]
        rfl
    · rintro ⟨n, hn, hwalk, p, hp, hcolor, htype⟩
      cases n with
      | zero =>
        simp only [Nat.cast_zero, shift_zero] at hp
        simp [valid_of_pieceAt hp, hp, hcolor, htype]
      | succ n =>
        obtain ⟨⟨hvalid, hnone⟩, hwalk⟩ := walk_succ.mp hwalk
        rw [if_pos hvalid, hnone]
        refine ih.mpr ⟨n, by omega, hwalk, p, ?_, hcolor, htype⟩
        rw [← hp, shift_shift, add_comm]
        rfl

theorem slidingMovesLoop_iff {start : Square} {m : Move} {fuel : ℕ} :
    m ∈ slidingMovesLoop d color start b fuel s ↔
      ∃ n < fuel, Walk b d s n ∧ (s.shift d n).isValid = true ∧
        (∀ p, b.pieceAt (s.shift d n) = some p → p.color ≠ color) ∧
        m = ⟨start, s.shift d n, none⟩ := by
  induction fuel generalizing s with
  | zero => simp [slidingMovesLoop]
  | succ fuel ih =>
    have hzero : Walk b d s 0 := fun j hj => absurd hj j.not_lt_zero
    have hnext (n : ℕ) : (s.shift d 1).shift d n = s.shift d ((n + 1 : ℕ) : ℤ) := by
      rw [shift_shift, add_comm]
      rfl
    unfold slidingMovesLoop
    constructor
    · intro h
      split_ifs at h with hvalid
      · split at h
        · next p hp =>
          split_ifs at h with hcolor
          · refine ⟨0, fuel.succ_pos, hzero, by simpa using hvalid, ?_, by simpa using h⟩
            intro q hq
            rw [Nat.cast_zero, shift_zero, hp] at hq
            exact Option.some.inj hq ▸ hcolor
          · cases h
        · next hp =>
          rcases List.mem_cons.mp h with h | h
          · refine ⟨0, fuel.succ_pos, hzero, by simpa using hvalid, ?_, by simpa using h⟩
            intro q hq
            rw [Nat.cast_zero, shift_zero, hp] at hq
            cases hq
          · obtain ⟨n, hn, hwalk, hv, hother, hm⟩ := ih.mp h
            rw [hnext] at hv hother hm
            exact ⟨n + 1, by omega, walk_succ.mpr ⟨⟨hvalid, hp⟩, hwalk⟩, hv, hother, hm⟩
      · cases h
    · rintro ⟨n, hn, hwalk, hv, hother, hm⟩
      cases n with
      | zero =>
        simp only [Nat.cast_zero, shift_zero] at hv hother hm
        rw [if_pos hv]
        split
        · next p hp => simp [hother p hp, hm]
        · simp [hm]
      | succ n =>
        obtain ⟨⟨hvalid, hnone⟩, hwalk⟩ := walk_succ.mp hwalk
        rw [if_pos hvalid, hnone]
        rw [← hnext] at hv hother hm
        exact List.mem_cons_of_mem _ (ih.mpr ⟨n, by omega, hwalk, hv, hother, hm⟩)

/-- A walk between two squares of the board is a line with nothing between its ends. -/
theorem walk_iff (hmen : ShowsMen b men) (hd : Oblique d ∨ Upright d) (hs : s.isValid = true)
    (ht : t.isValid = true) :
    (∃ n < raySteps, Walk b d (s.shift d 1) n ∧ t = (s.shift d 1).shift d n) ↔
      (∃ n, 0 < n ∧ t = s.shift d n) ∧ Clear men s t := by
  constructor
  · rintro ⟨n, -, hwalk, ht⟩
    rw [shift_shift] at ht
    refine ⟨⟨1 + n, by omega, ht⟩, fun u hu => ?_⟩
    rw [ht] at hu
    obtain ⟨k, hk, hkn, rfl⟩ := (between_shift hd (by omega)).mp hu
    obtain ⟨-, hnone⟩ := hwalk (k - 1).toNat (by omega)
    rw [shift_shift, hmen, pieceOn_eq_none] at hnone
    have hindex : 1 + ((k - 1).toNat : ℤ) = k := by omega
    rwa [hindex] at hnone
  · rintro ⟨⟨n, hn, rfl⟩, hclear⟩
    rw [Square.isValid_iff] at hs ht
    simp only [Square.shift] at ht
    have hbound : n ≤ 7 := by
      rcases hd with ⟨h | h, -⟩ | ⟨h | h, -⟩ | ⟨-, h | h⟩ <;> simp only [h] at ht <;> omega
    refine ⟨(n - 1).toNat, ?_, fun j hj => ?_, ?_⟩
    · unfold raySteps
      omega
    · have hinner : (s.shift d (1 + j)).isValid = true := by
        rw [Square.isValid_iff]
        simp only [Square.shift]
        rcases hd with ⟨h1 | h1, h2 | h2⟩ | ⟨h1 | h1, h2⟩ | ⟨h1, h2 | h2⟩ <;>
          simp only [h1, h2] at ht ⊢ <;> omega
      rw [shift_shift, hmen, pieceOn_eq_none]
      exact ⟨hinner, hclear _ ((between_shift hd hn).mpr ⟨1 + j, by omega, by omega, rfl⟩)⟩
    · rw [shift_shift]
      congr 1
      omega

theorem diagonal_walk (hmen : ShowsMen b men) (hs : s.isValid = true) (ht : t.isValid = true) :
    (∃ d ∈ diagonalDirs, ∃ n < raySteps, Walk b d (s.shift d 1) n ∧ t = (s.shift d 1).shift d n) ↔
      Diagonal s t ∧ Clear men s t := by
  rw [diagonal_iff]
  constructor
  · rintro ⟨d, hd, hwalk⟩
    have hd := mem_diagonalDirs.mp hd
    obtain ⟨hline, hclear⟩ := (walk_iff hmen (.inl hd) hs ht).mp hwalk
    exact ⟨⟨d, hd, hline⟩, hclear⟩
  · rintro ⟨⟨d, hd, hline⟩, hclear⟩
    exact ⟨d, mem_diagonalDirs.mpr hd, (walk_iff hmen (.inl hd) hs ht).mpr ⟨hline, hclear⟩⟩

theorem straight_walk (hmen : ShowsMen b men) (hs : s.isValid = true) (ht : t.isValid = true) :
    (∃ d ∈ straightDirs, ∃ n < raySteps, Walk b d (s.shift d 1) n ∧ t = (s.shift d 1).shift d n) ↔
      Straight s t ∧ Clear men s t := by
  rw [straight_iff]
  constructor
  · rintro ⟨d, hd, hwalk⟩
    have hd := mem_straightDirs.mp hd
    obtain ⟨hline, hclear⟩ := (walk_iff hmen (.inr hd) hs ht).mp hwalk
    exact ⟨⟨d, hd, hline⟩, hclear⟩
  · rintro ⟨⟨d, hd, hline⟩, hclear⟩
    exact ⟨d, mem_straightDirs.mpr hd, (walk_iff hmen (.inr hd) hs ht).mpr ⟨hline, hclear⟩⟩

theorem knight_iff : (∃ d ∈ knightOffsets, t = s.shift d 1) ↔
    |t.file - s.file| = 1 ∧ |t.rank - s.rank| = 2 ∨ |t.file - s.file| = 2 ∧ |t.rank - s.rank| = 1 := by
  simp only [knightOffsets, List.exists_mem_cons_iff, List.not_mem_nil, false_and, exists_false,
    or_false, Square.ext_iff', Square.shift, abs_eq (zero_le_one' ℤ), abs_eq (zero_le_two (α := ℤ))]
  omega

theorem king_iff : (∃ d ∈ kingOffsets, t = s.shift d 1) ↔
    s ≠ t ∧ |t.file - s.file| ≤ 1 ∧ |t.rank - s.rank| ≤ 1 := by
  simp only [kingOffsets, List.exists_mem_cons_iff, List.not_mem_nil, false_and, exists_false,
    or_false, Square.ext_iff', Square.shift, abs_le, ne_eq]
  omega

theorem pawn_iff {f : ℤ} : (∃ off ∈ ([-1, 1] : List ℤ), t = ⟨s.file + off, s.rank + f⟩) ↔
    t.rank = s.rank + f ∧ |t.file - s.file| = 1 := by
  simp only [List.exists_mem_cons_iff, List.not_mem_nil, false_and, exists_false, or_false,
    Square.ext_iff', abs_eq (zero_le_one' ℤ)]
  omega

/-- The attackers of a square by their kind. -/
theorem attacked_by : Attacked men color t ↔
    (∃ s, pieceOn men s = some ⟨.pawn, color⟩ ∧ t.rank = s.rank + forward color ∧
      |t.file - s.file| = 1) ∨
    (∃ s, pieceOn men s = some ⟨.knight, color⟩ ∧ (|t.file - s.file| = 1 ∧ |t.rank - s.rank| = 2 ∨
      |t.file - s.file| = 2 ∧ |t.rank - s.rank| = 1)) ∨
    (∃ s, pieceOn men s = some ⟨.king, color⟩ ∧ s ≠ t ∧ |t.file - s.file| ≤ 1 ∧
      |t.rank - s.rank| ≤ 1) ∨
    (∃ s p, pieceOn men s = some p ∧ p.color = color ∧ p.pieceType ∈ [PieceType.bishop, .queen] ∧
      Diagonal s t ∧ Clear men s t) ∨
    ∃ s p, pieceOn men s = some p ∧ p.color = color ∧ p.pieceType ∈ [PieceType.rook, .queen] ∧
      Straight s t ∧ Clear men s t := by
  constructor
  · rintro ⟨s, ⟨type, c⟩, hp, rfl, hattacks⟩
    cases type with
    | pawn => exact .inl ⟨s, hp, hattacks⟩
    | knight => exact .inr (.inl ⟨s, hp, hattacks⟩)
    | bishop => exact .inr (.inr (.inr (.inl ⟨s, _, hp, rfl, by simp, hattacks⟩)))
    | rook => exact .inr (.inr (.inr (.inr ⟨s, _, hp, rfl, by simp, hattacks⟩)))
    | queen =>
      obtain ⟨hline | hline, hclear⟩ := hattacks
      · exact .inr (.inr (.inr (.inl ⟨s, _, hp, rfl, by simp, hline, hclear⟩)))
      · exact .inr (.inr (.inr (.inr ⟨s, _, hp, rfl, by simp, hline, hclear⟩)))
    | king => exact .inr (.inr (.inl ⟨s, hp, hattacks⟩))
  · rintro (⟨s, hp, h⟩ | ⟨s, hp, h⟩ | ⟨s, hp, h⟩ | ⟨s, ⟨type, c⟩, hp, rfl, htype, h⟩ |
      ⟨s, ⟨type, c⟩, hp, rfl, htype, h⟩)
    · exact ⟨s, _, hp, rfl, h⟩
    · exact ⟨s, _, hp, rfl, h⟩
    · exact ⟨s, _, hp, rfl, h⟩
    · refine ⟨s, _, hp, rfl, ?_⟩
      simp only [List.mem_cons, List.not_mem_nil, or_false] at htype
      rcases htype with rfl | rfl
      · exact h
      · exact ⟨.inl h.1, h.2⟩
    · refine ⟨s, _, hp, rfl, ?_⟩
      simp only [List.mem_cons, List.not_mem_nil, or_false] at htype
      rcases htype with rfl | rfl
      · exact h
      · exact ⟨.inr h.1, h.2⟩

/-- A sliding attacker at the end of a walk. -/
theorem slidingAttacker_iff (hmen : ShowsMen b men) {types : List PieceType} :
    slidingAttacker s d b color types = true ↔
      ∃ t p, pieceOn men t = some p ∧ p.color = color ∧ p.pieceType ∈ types ∧
        ∃ n < raySteps, Walk b d (s.shift d 1) n ∧ t = (s.shift d 1).shift d n := by
  unfold slidingAttacker
  rw [slidingLoop_iff]
  constructor
  · rintro ⟨n, hn, hwalk, p, hp, hcolor, htype⟩
    exact ⟨_, p, hmen _ ▸ hp, hcolor, htype, n, hn, hwalk, rfl⟩
  · rintro ⟨t, p, hp, hcolor, htype, n, hn, hwalk, rfl⟩
    exact ⟨n, hn, hwalk, p, (hmen _).trans hp, hcolor, htype⟩

theorem pawn_offsets (color : Color) (t : Square) :
    (([-1, 1] : List ℤ).any fun off => b.pieceAt
      ⟨t.file + off, t.rank + if color = .white then -1 else 1⟩ = some ⟨.pawn, color⟩) = true ↔
    ∃ s, b.pieceAt s = some ⟨.pawn, color⟩ ∧ t.rank = s.rank + forward color ∧
      |t.file - s.file| = 1 := by
  have hforward : (if color = .white then -1 else 1 : ℤ) = -forward color := by cases color <;> rfl
  rw [hforward, List.any_eq_true]
  simp only [decide_eq_true_eq]
  constructor
  · rintro ⟨off, hoff, hp⟩
    obtain ⟨hrank, hfile⟩ := pawn_iff.mp ⟨off, hoff, rfl⟩
    refine ⟨_, hp, ?_, ?_⟩
    · dsimp only at hrank ⊢
      omega
    · rw [abs_sub_comm]
      exact hfile
  · rintro ⟨s, hp, hrank, hfile⟩
    obtain ⟨off, hoff, hs⟩ := (@pawn_iff t s (-forward color)).mpr
      ⟨by omega, by rw [abs_sub_comm]; exact hfile⟩
    exact ⟨off, hoff, hs ▸ hp⟩

/-- The engine's attacked squares are those of the laws. -/
theorem attacked_iff (hmen : ShowsMen b men) (hs : s.isValid = true) :
    isSquareAttacked s color b = true ↔ Attacked men color s := by
  have hvalid {t : Square} {p : Piece} (hp : pieceOn men t = some p) : t.isValid = true :=
    valid_of_pieceAt ((hmen t).trans hp)
  have hstep (offsets : List (ℤ × ℤ)) (p : Piece) :
      (offsets.any fun d => b.pieceAt (s.shift d 1) = some p) = true ↔
        ∃ t, pieceOn men t = some p ∧ ∃ d ∈ offsets, t = s.shift d 1 := by
    simp only [List.any_eq_true, decide_eq_true_eq, hmen _]
    constructor
    · rintro ⟨d, hd, hp⟩
      exact ⟨_, hp, d, hd, rfl⟩
    · rintro ⟨t, hp, d, hd, rfl⟩
      exact ⟨d, hd, hp⟩
  have hslide (dirs : List (ℤ × ℤ)) (types : List PieceType) :
      (dirs.any fun d => slidingAttacker s d b color types) = true ↔
        ∃ t p, pieceOn men t = some p ∧ p.color = color ∧ p.pieceType ∈ types ∧
          ∃ d ∈ dirs, ∃ n < raySteps, Walk b d (s.shift d 1) n ∧ t = (s.shift d 1).shift d n := by
    simp only [List.any_eq_true, slidingAttacker_iff hmen]
    constructor
    · rintro ⟨d, hd, t, p, hp, hcolor, htype, hwalk⟩
      exact ⟨t, p, hp, hcolor, htype, d, hd, hwalk⟩
    · rintro ⟨t, p, hp, hcolor, htype, d, hd, hwalk⟩
      exact ⟨d, hd, t, p, hp, hcolor, htype, hwalk⟩
  rw [attacked_by]
  unfold isSquareAttacked
  simp only [Bool.or_eq_true, pawn_offsets, hstep, hslide, or_assoc]
  simp only [hmen _]
  refine or_congr Iff.rfl (or_congr (exists_congr fun t => and_congr_right fun hp => ?_)
    (or_congr (exists_congr fun t => and_congr_right fun hp => ?_) (or_congr
      (exists_congr fun t => exists_congr fun p => and_congr_right fun hp => and_congr_right fun _ =>
        and_congr_right fun _ => ?_)
      (exists_congr fun t => exists_congr fun p => and_congr_right fun hp => and_congr_right fun _ =>
        and_congr_right fun _ => ?_))))
  · rw [knight_iff, abs_sub_comm, abs_sub_comm t.rank]
  · rw [king_iff, abs_sub_comm, abs_sub_comm t.rank, ne_comm]
  · rw [diagonal_walk hmen hs (hvalid hp)]
    exact ⟨fun h => ⟨diagonal_symm h.1, clear_symm (.inl h.1) h.2⟩,
      fun h => ⟨diagonal_symm h.1, clear_symm (.inl h.1) h.2⟩⟩
  · rw [straight_walk hmen hs (hvalid hp)]
    exact ⟨fun h => ⟨straight_symm h.1, clear_symm (.inr h.1) h.2⟩,
      fun h => ⟨straight_symm h.1, clear_symm (.inr h.1) h.2⟩⟩

theorem mem_allSquares : s ∈ allSquares ↔ s.isValid = true := by
  rw [Square.isValid_iff]
  simp only [allSquares, List.mem_flatMap, List.mem_map, List.mem_range, Square.ext_iff']
  constructor
  · rintro ⟨r, hr, f, hf, hfile, hrank⟩
    omega
  · rintro ⟨h1, h2, h3, h4⟩
    exact ⟨s.rank.toNat, by omega, s.file.toNat, by omega, by omega, by omega⟩

/-- With one king of the colour, the engine's verdict on it is that of the laws. -/
theorem inCheck_iff (hmen : ShowsMen b men)
    (hking : ∃ k, ∀ s, pieceOn men s = some ⟨.king, color⟩ ↔ s = k) :
    isKingInCheck color b = true ↔ InCheck men color := by
  obtain ⟨k, hk⟩ := hking
  have hkk := (hk k).mpr rfl
  have hvalid := valid_of_pieceAt ((hmen k).trans hkk)
  have hfind : findKing color b = some k := by
    unfold findKing
    cases hf : allSquares.find? fun sq => b.pieceAt sq = some ⟨.king, color⟩ with
    | none =>
      have hno := List.find?_eq_none.mp hf k (mem_allSquares.mpr hvalid)
      simp [hmen k, hkk] at hno
    | some s =>
      have hs := List.find?_some hf
      rw [decide_eq_true_eq, hmen] at hs
      rw [(hk s).mp hs]
  unfold isKingInCheck
  rw [hfind]
  dsimp only
  rw [attacked_iff hmen hvalid]
  constructor
  · exact fun h => ⟨k, hkk, h⟩
  · rintro ⟨s, hs, h⟩
    exact (hk s).mp hs ▸ h

end

end KaChatIndexer.ChessRays
