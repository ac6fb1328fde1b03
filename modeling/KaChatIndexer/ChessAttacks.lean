import KaChatIndexer.ChessSuccessor

/-!
# Attacks and moves

The engine finds the attackers of a square by looking outward from it, and its moves by looking
outward from each man. On every board the two agree: a square is attacked when an enemy man on it
could be taken.
-/
namespace KaChatIndexer.ChessAttacks
open ChessPieces ChessEngine ChessLaws ChessGames ChessRays ChessMoves ChessSuccessor

/-- The pseudo-legal moves with castling left out. -/
def plainMoves (piece : Piece) (sq : Square) (b : Board) : List Move :=
  if piece.pieceType = .king then steppingMoves kingOffsets piece.color sq b
  else pseudoLegalMoves piece sq b

/-- The men of a board that need not come from a game. -/
def menOf (b : Board) : Men := fun s => (b.pieceAt s).map (⟨·, false⟩)

theorem shows_menOf (b : Board) : ShowsMen b (menOf b) := fun s => by
  unfold pieceOn menOf
  cases b.pieceAt s <;> rfl

section
variable {men men' : Men} {p q : Piece} {s t u : Square} {color : Color}

theorem between_ne (h : Between s t u) : u ≠ t := by
  rintro rfl
  obtain ⟨k, hk, hlt, hu⟩ := h
  have hbound {a : ℤ} (ha : a = k * a.sign) : |a| ≤ k := by
    rcases lt_trichotomy a 0 with h | h | h
    · rw [Int.sign_eq_neg_one_of_neg h] at ha
      rw [abs_of_neg h]
      omega
    · rw [h, abs_zero]
      exact hk.le
    · rw [Int.sign_eq_one_of_pos h] at ha
      rw [abs_of_pos h]
      omega
  have hfile := congrArg Square.file hu
  have hrank := congrArg Square.rank hu
  simp only [Square.shift] at hfile hrank
  exact absurd hlt (not_lt.mpr (max_le (hbound (by omega)) (hbound (by omega))))

theorem not_attacks_self : ¬ Attacks men p s s := by
  unfold Attacks
  cases p.pieceType with
  | pawn => simp [forward]
  | knight => simp
  | bishop => simp [Diagonal]
  | rook => simp [Straight]
  | queen => simp [Diagonal, Straight]
  | king => simp

/-- Whether `t` is attacked does not depend on what stands on it. -/
theorem attacked_congr (h : ∀ u, u ≠ t → men u = men' u) (hattacked : Attacked men color t) :
    Attacked men' color t := by
  obtain ⟨s, p, hp, hcolor, hattacks⟩ := hattacked
  have hst : s ≠ t := fun hst => not_attacks_self (hst ▸ hattacks)
  have hclear (hc : Clear men s t) : Clear men' s t := fun u hu => by
    rw [← h u (between_ne hu)]
    exact hc u hu
  refine ⟨s, p, ?_, hcolor, ?_⟩
  · unfold pieceOn at hp ⊢
    rw [← h s hst]
    exact hp
  · unfold Attacks at hattacks ⊢
    cases htype : p.pieceType <;> rw [htype] at hattacks
    · exact hattacks
    · exact hattacks
    · exact ⟨hattacks.1, hclear hattacks.2⟩
    · exact ⟨hattacks.1, hclear hattacks.2⟩
    · exact ⟨hattacks.1, hclear hattacks.2⟩
    · exact hattacks

theorem exists_promotes (p : Piece) (t : Square) : ∃ promo, Promotes p t promo := by
  unfold Promotes
  split_ifs
  · exact ⟨_, .inl rfl⟩
  · exact ⟨_, rfl⟩

variable {b : Board}

/-- A man moves onto an enemy man exactly when it attacks it. -/
theorem takes_iff (hmen : ShowsMen b men) (hp : pieceOn men s = some p) (hq : pieceOn men t = some q)
    (hother : q.color ≠ p.color) : (∃ m ∈ plainMoves p s b, m.target = t) ↔ Attacks men p s t := by
  have hs : s.isValid = true := valid_of_pieceAt ((hmen s).trans hp)
  have hocc : men t ≠ none := fun h => by rw [pieceOn_eq_none.mpr h] at hq; cases hq
  have hfree : Free men p.color t := by
    refine ⟨valid_of_pieceAt ((hmen t).trans hq), fun r hr => ?_⟩
    rw [hq] at hr
    exact Option.some.inj hr ▸ hother
  have hofficer (h : ∀ m, m ∈ plainMoves p s b ↔ Officer men p s m) :
      (∃ m ∈ plainMoves p s b, m.target = t) ↔ Attacks men p s t := by
    constructor
    · rintro ⟨m, hm, rfl⟩
      obtain ⟨u, -, hattacks, rfl⟩ := (h m).mp hm
      exact hattacks
    · exact fun hattacks => ⟨_, (h _).mpr ⟨t, hfree, hattacks, rfl⟩, rfl⟩
  obtain ⟨type, color⟩ := p
  by_cases hking : type = .king
  · subst hking
    exact hofficer fun m => king_steps hmen
  by_cases hpawn : type = .pawn
  · subst hpawn
    constructor
    · rintro ⟨m, hm, rfl⟩
      rcases (pawn_moves hmen hs).mp hm with ⟨u, promo, -, hgoes, -, rfl⟩ | ⟨u, -, -, hnone, -, rfl⟩
      · exact goes_attacks hgoes hocc
      · exact absurd hnone hocc
    · intro hattacks
      obtain ⟨promo, hpromo⟩ := exists_promotes ⟨.pawn, color⟩ t
      exact ⟨_, (pawn_moves hmen hs).mpr (.inl ⟨t, promo, hfree, .inr ⟨hattacks, hocc⟩, hpromo, rfl⟩),
        rfl⟩
  · refine hofficer fun m => ?_
    unfold plainMoves
    rw [if_neg hking]
    exact officer_moves hmen hs hpawn hking

end

/-- A square is attacked exactly when an enemy man placed on it could be taken by a move other than
castling. -/
theorem attacked_iff_takes (b : Board) (sq : Square) (hsq : sq.isValid = true) (color : Color)
    (type : PieceType) :
    isSquareAttacked sq color b = true ↔
      ∃ source piece, (b.put (some ⟨type, color.opposite⟩) sq).pieceAt source = some piece ∧
        piece.color = color ∧
        ∃ m ∈ plainMoves piece source (b.put (some ⟨type, color.opposite⟩) sq), m.target = sq := by
  let placed := b.put (some ⟨type, color.opposite⟩) sq
  have hmen := shows_menOf placed
  have hput (u : Square) : placed.pieceAt u = _ := pieceAt_put hsq
  have hsame (u : Square) (hu : u ≠ sq) : menOf b u = menOf placed u := by
    unfold menOf
    rw [hput, if_neg hu]
  have henemy : pieceOn (menOf placed) sq = some ⟨type, color.opposite⟩ := by
    rw [← hmen, hput, if_pos rfl]
  rw [attacked_iff (shows_menOf b) hsq]
  calc Attacked (menOf b) color sq
    _ ↔ Attacked (menOf placed) color sq :=
      ⟨attacked_congr hsame, attacked_congr fun u hu => (hsame u hu).symm⟩
    _ ↔ _ := by
      refine exists_congr fun s => exists_congr fun p => ?_
      rw [hmen s]
      refine and_congr_right fun hp => and_congr_right fun hcolor => (takes_iff hmen hp henemy ?_).symm
      rw [hcolor]
      exact Color.opposite_ne color

/-- White's pawns guard e3 before the first move. -/
theorem pawns_guard : ∃ source piece,
    (initialBoard.put (some ⟨.queen, .black⟩) ⟨4, 2⟩).pieceAt source = some piece ∧
      piece.color = .white ∧
      ∃ m ∈ plainMoves piece source (initialBoard.put (some ⟨.queen, .black⟩) ⟨4, 2⟩),
        m.target = ⟨4, 2⟩ :=
  (attacked_iff_takes initialBoard ⟨4, 2⟩ (by decide) .white .queen).mp (by decide)

end KaChatIndexer.ChessAttacks
