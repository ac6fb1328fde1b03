import KaChatIndexer.ChessMoves

/-!
# Applying a move

The board after a move shows the position after it: the men, the castling rights and the en-passant
square.
-/
namespace KaChatIndexer.ChessSuccessor
open ChessPieces ChessEngine ChessLaws ChessGames ChessRays ChessMoves

section
variable {b r : Board} {s t u : Square} {p : Option Piece} {piece : Piece} {m : Move} {c : Color}
  {w : Wing}

theorem pieceAt_put (hs : s.isValid = true) :
    (b.put p s).pieceAt u = if u = s then p else b.pieceAt u := by
  unfold Board.pieceAt
  by_cases hu : u.isValid = true
  · have hindex : (⟨(Fin.ofNat 8 u.file.toNat : ℕ), (Fin.ofNat 8 u.rank.toNat : ℕ)⟩ : Square) = u := by
      rw [Square.isValid_iff] at hu
      rw [Square.ext_iff']
      simp only [Fin.ofNat]
      omega
    simp only [hu, if_true, Board.put, hindex, eq_comm]
  · rw [if_neg hu, if_neg hu, if_neg]
    rintro rfl
    exact hu hs

theorem setPiece_valid (hs : s.isValid = true) : b.setPiece p s = some (b.put p s) := if_pos hs

@[simp] theorem rights_put : rights (b.put p s) c w = rights b c w := by cases w <;> rfl

theorem revoke_squares : (revokeCastlingRightIfCornerTouched s b).squares = b.squares := by
  unfold revokeCastlingRightIfCornerTouched
  split <;> rfl

theorem revoke_side : (revokeCastlingRightIfCornerTouched s b).sideToMove = b.sideToMove := by
  unfold revokeCastlingRightIfCornerTouched
  split <;> rfl

/-- Where the rook of the wing starts. -/
def cornerOf (c : Color) (w : Wing) : Square := ⟨w.corner, homeRank c⟩

theorem revoke_rights : rights (revokeCastlingRightIfCornerTouched s b) c w =
    (rights b c w && decide (s ≠ cornerOf c w)) := by
  obtain ⟨f, k⟩ := s
  have hcorner : (⟨f, k⟩ : Square) ≠ cornerOf c w ↔ ¬ (f = w.corner ∧ k = homeRank c) := by
    rw [ne_eq, cornerOf, Square.mk.injEq]
  rw [decide_eq_decide.mpr hcorner]
  unfold revokeCastlingRightIfCornerTouched
  split
  · next hf hk =>
    dsimp only at hf hk
    subst hf hk
    cases c <;> cases w <;> simp [rights, Board.canCastleK, Board.canCastleQ, Wing.corner, homeRank]
  · next hf hk =>
    dsimp only at hf hk
    subst hf hk
    cases c <;> cases w <;> simp [rights, Board.canCastleK, Board.canCastleQ, Wing.corner, homeRank]
  · next hf hk =>
    dsimp only at hf hk
    subst hf hk
    cases c <;> cases w <;> simp [rights, Board.canCastleK, Board.canCastleQ, Wing.corner, homeRank]
  · next hf hk =>
    dsimp only at hf hk
    subst hf hk
    cases c <;> cases w <;> simp [rights, Board.canCastleK, Board.canCastleQ, Wing.corner, homeRank]
  · next h1 h2 h3 h4 =>
    dsimp only at h1 h2 h3 h4
    have hno : ¬ (f = w.corner ∧ k = homeRank c) := by
      rintro ⟨rfl, rfl⟩
      cases c <;> cases w
      · exact h2 rfl rfl
      · exact h1 rfl rfl
      · exact h4 rfl rfl
      · exact h3 rfl rfl
    rw [decide_eq_true hno, Bool.and_true]

theorem king_rights : rights (if piece.pieceType = .king then
      (b.setCastleK false piece.color).setCastleQ false piece.color else b) c w =
    (rights b c w && decide (piece ≠ ⟨.king, c⟩)) := by
  obtain ⟨type, d⟩ := piece
  split_ifs with hking
  · dsimp only at hking
    subst hking
    cases c <;> cases d <;> cases w <;>
      simp [rights, Board.canCastleK, Board.canCastleQ, Board.setCastleK, Board.setCastleQ]
  · have hne : (⟨type, d⟩ : Piece) ≠ ⟨.king, c⟩ := fun h => hking (congrArg Piece.pieceType h)
    rw [decide_eq_true hne, Bool.and_true]

theorem finish_rights : rights (finishMove piece m r) c w =
    (rights r c w && decide (piece ≠ ⟨.king, c⟩) && decide (m.source ≠ cornerOf c w) &&
      decide (m.target ≠ cornerOf c w)) := by
  rw [← king_rights, ← revoke_rights, ← revoke_rights]
  cases w <;> rfl

theorem finish_squares : (finishMove piece m r).squares = r.squares := by
  unfold finishMove
  dsimp only
  rw [revoke_squares, revoke_squares]
  split_ifs
  · unfold Board.setCastleQ Board.setCastleK
    split_ifs <;> rfl
  · rfl

theorem finish_pieceAt : (finishMove piece m r).pieceAt u = r.pieceAt u := by
  unfold Board.pieceAt
  rw [finish_squares]

theorem finish_side : (finishMove piece m r).sideToMove = r.sideToMove.opposite := by
  unfold finishMove
  dsimp only
  rw [revoke_side, revoke_side]
  split_ifs
  · unfold Board.setCastleQ Board.setCastleK
    split_ifs <;> rfl
  · rfl

theorem finish_passed : (finishMove piece m r).enPassant =
    if piece.pieceType = .pawn ∧ |m.target.rank - m.source.rank| = 2 then
      some ⟨m.source.file, (m.source.rank + m.target.rank).tdiv 2⟩
    else none := rfl

end

section
variable {pos pos' : Position} {b r : Board} {m : Move} {s t u : Square} {p : Piece} {c : Color}
  {w : Wing}

/-- An unmoved man stood there before the move, away from where the move starts and ends. -/
theorem unmoved_before (hplay : Plays pos m pos') (h : pos'.men u = some ⟨p, false⟩) :
    pos.men u = some ⟨p, false⟩ ∧ u ≠ m.source ∧ u ≠ m.target := by
  have hrelocate {men : Men} {s t : Square} {q : Piece}
      (h : relocate men s t ⟨q, true⟩ u = some ⟨p, false⟩) :
      men u = some ⟨p, false⟩ ∧ u ≠ s ∧ u ≠ t := by
    rw [relocate_apply] at h
    split_ifs at h with hut hus
    · simp at h
    · exact ⟨h, hus, hut⟩
  cases hplay with
  | goes => exact hrelocate h
  | enPassant =>
    dsimp only at h
    rw [Function.update_apply] at h
    split_ifs at h
    exact hrelocate h
  | castles => exact hrelocate (hrelocate h).1

/-- An unmoved man that is no pawn stays, unless the move touches its square or castles its side. -/
theorem unmoved_after (hsound : Sound pos) (hplay : Plays pos m pos')
    (h : pos.men u = some ⟨p, false⟩) (hsource : u ≠ m.source) (htarget : u ≠ m.target)
    (hpawn : p.pieceType ≠ .pawn) (hcastle : p.color = pos.turn →
      pieceOn pos.men m.source ≠ some ⟨.king, pos.turn⟩) : pos'.men u = some ⟨p, false⟩ := by
  cases hplay with
  | goes =>
    dsimp only
    rw [relocate_apply, if_neg htarget, if_neg hsource]
    exact h
  | @enPassant s t last hpawn' hlast hpassed hattacks =>
    obtain ⟨-, hvictim, -⟩ := hsound.victim hlast hpassed hattacks
    have hne : u ≠ last.target := by
      rintro rfl
      rw [pieceOn_some h, Option.some.injEq] at hvictim
      exact hpawn (congrArg Piece.pieceType hvictim)
    dsimp only
    rw [Function.update_apply, if_neg hne, relocate_apply, if_neg htarget, if_neg hsource]
    exact h
  | castles w hmay =>
    obtain ⟨hking, hrook, -, hrookTo⟩ := mayCastle_squares hmay
    have hrook' : u ≠ ⟨w.corner, homeRank pos.turn⟩ := by
      rintro rfl
      rw [pieceOn_some h, Option.some.injEq] at hrook
      exact hcastle (congrArg Piece.color hrook) hking
    have hempty : u ≠ ⟨w.rookTo, homeRank pos.turn⟩ := by
      rintro rfl
      rw [hrookTo] at h
      cases h
    dsimp only [castled]
    rw [relocate_apply, if_neg hempty, if_neg hrook', relocate_apply, if_neg htarget, if_neg hsource]
    exact h

/-- What the move's man is, and that no king stands where it goes. -/
theorem plays_mover (hsound : Sound pos) (hplay : Plays pos m pos') :
    ∃ man, pos.men m.source = some man ∧ man.piece.color = pos.turn ∧
      ∀ c, pieceOn pos.men m.target ≠ some ⟨.king, c⟩ := by
  cases hplay with
  | goes hman hturn hboard hown hgoes hpromo =>
    exact ⟨_, hman, hturn, hsound.no_king hman hturn hown hgoes⟩
  | enPassant hpawn hlast hpassed hattacks =>
    obtain ⟨man, hman, hpiece⟩ := exists_man hpawn
    obtain ⟨-, -, hempty, -⟩ := hsound.victim hlast hpassed hattacks
    exact ⟨man, hman, by rw [hpiece], fun c => by rw [pieceOn_eq_none.mpr hempty]; simp⟩
  | castles w hmay =>
    obtain ⟨-, -, hkingTo, -⟩ := mayCastle_squares hmay
    exact ⟨_, hmay.king, rfl, fun c => by rw [pieceOn_eq_none.mpr hkingTo]; simp⟩

/-- King and rook keep their places when the king does not move and nothing touches the corner. -/
theorem keeps_plays (hsound : Sound pos) (hplay : Plays pos m pos')
    (hp : pieceOn pos.men m.source = some p) :
    Keeps pos'.men c w ↔ Keeps pos.men c w ∧ p ≠ ⟨.king, c⟩ ∧ m.source ≠ cornerOf c w ∧
      m.target ≠ cornerOf c w := by
  obtain ⟨man, hman, hturn, hno⟩ := plays_mover hsound hplay
  have hmover : p = man.piece := Option.some.inj (hp.symm.trans (pieceOn_some hman))
  constructor
  · rintro ⟨hking, hrook⟩
    obtain ⟨hking, hks, -⟩ := unmoved_before hplay hking
    obtain ⟨hrook, hrs, hrt⟩ := unmoved_before hplay hrook
    refine ⟨⟨hking, hrook⟩, ?_, Ne.symm hrs, Ne.symm hrt⟩
    rintro rfl
    obtain ⟨k, hk⟩ := hsound.kings c
    exact hks (((hk _).mp (pieceOn_some hking)).trans ((hk _).mp hp).symm)
  · rintro ⟨⟨hking, hrook⟩, hne, hrs, hrt⟩
    have hks : (⟨4, homeRank c⟩ : Square) ≠ m.source := by
      intro heq
      rw [heq] at hking
      exact hne (Option.some.inj (hp.symm.trans (pieceOn_some hking)))
    have hkt : (⟨4, homeRank c⟩ : Square) ≠ m.target := by
      intro heq
      rw [heq] at hking
      exact hno c (pieceOn_some hking)
    have hcastle (hc : c = pos.turn) : pieceOn pos.men m.source ≠ some ⟨.king, pos.turn⟩ := by
      rw [hp, ← hc]
      exact fun h => hne (Option.some.inj h)
    exact ⟨unmoved_after hsound hplay hking hks hkt (by simp) hcastle,
      unmoved_after hsound hplay hrook (Ne.symm hrs) (Ne.symm hrt) (by simp) hcastle⟩

/-- A double step is made by a pawn that stays a pawn. -/
theorem double_step (hplay : Plays pos m pos') (hp : pieceOn pos.men m.source = some p)
    (hranks : |m.target.rank - m.source.rank| = 2) :
    p.pieceType = .pawn ↔ pieceOn pos'.men m.target = some ⟨.pawn, pos'.turn.opposite⟩ := by
  rw [(plays_last hplay).2, Color.opposite_opposite]
  cases hplay with
  | @goes s t promo man hman hturn hboard hown hgoes hpromo =>
    obtain rfl : man.piece = p := Option.some.inj ((pieceOn_some hman).symm.trans hp)
    dsimp only at hranks ⊢
    rw [pieceOn_relocate, if_pos rfl, Option.some.injEq]
    constructor
    · intro htype
      have hnone : promo = none := by
        unfold Promotes at hpromo
        rwa [if_neg] at hpromo
        rintro ⟨-, hlast⟩
        rcases pawn_goes hgoes htype with hstep | ⟨-, hstart, hdouble, -⟩
        · rw [hstep, add_sub_cancel_left, abs_forward] at hranks
          omega
        · rw [hlast, hstart] at hdouble
          cases hc : man.piece.color <;>
            simp [hc, lastRank, homeRank, forward, Color.opposite] at hdouble
      rw [hnone, Option.getD_none, htype]
    · exact fun h => (promotes_pawn hpromo h).1
  | @enPassant s t last hpawn hlast hpassed hattacks =>
    have hstep := hattacks.1
    dsimp only at hranks hstep
    rw [hstep, add_sub_cancel_left, abs_forward] at hranks
    omega
  | castles w hmay => simp at hranks

/-- The en-passant square of the engine is the one just passed over. -/
theorem finish_passed_iff (hplay : Plays pos m pos') (hp : pieceOn pos.men m.source = some p) :
    (finishMove p m r).enPassant = some t ↔ PassedOver pos' t := by
  obtain ⟨hlast, hturn⟩ := plays_last hplay
  rw [finish_passed]
  by_cases hdouble : p.pieceType = .pawn ∧ |m.target.rank - m.source.rank| = 2
  · have hpawn := (double_step hplay hp hdouble.2).mp hdouble.1
    have hranks := abs_eq (zero_le_two (α := ℤ)) |>.mp hdouble.2
    obtain ⟨k, hk⟩ : ∃ k, m.source.rank + m.target.rank = 2 * k := by
      rcases hranks with h | h
      · exact ⟨m.source.rank + 1, by omega⟩
      · exact ⟨m.source.rank - 1, by omega⟩
    rw [if_pos hdouble, Option.some.injEq, hk, Int.mul_tdiv_cancel_left k two_ne_zero]
    constructor
    · rintro rfl
      exact ⟨m, hlast, hpawn, hdouble.2, rfl, hk.symm⟩
    · rintro ⟨m', hm', -, -, hfile, hrank⟩
      obtain rfl : m = m' := Option.some.inj (hlast.symm.trans hm')
      rw [Square.ext_iff']
      refine ⟨hfile.symm, ?_⟩
      dsimp only
      omega
  · rw [if_neg hdouble]
    refine iff_of_false (by simp) ?_
    rintro ⟨m', hm', hpawn, hranks, -⟩
    obtain rfl : m = m' := Option.some.inj (hlast.symm.trans hm')
    exact hdouble ⟨(double_step hplay hp hranks).mpr hpawn, hranks⟩

/-- Once the men stand as after the move, the rest of `apply` makes the board show the position. -/
theorem shows_finish (h : Shows b pos) (hsound : Sound pos) (hplay : Plays pos m pos')
    (hp : pieceOn pos.men m.source = some p) (hmen : ShowsMen r pos'.men)
    (hrights : ∀ c w, rights r c w = rights b c w) (hside : r.sideToMove = b.sideToMove) :
    Shows (finishMove p m r) pos' where
  men s := finish_pieceAt.trans (hmen s)
  turn := by rw [finish_side, hside, h.turn, (plays_last hplay).2]
  castle c w := by
    rw [finish_rights, hrights, keeps_plays hsound hplay hp, ← h.castle]
    simp only [Bool.and_eq_true, decide_eq_true_eq, and_assoc]
  passed t := finish_passed_iff hplay hp

/-- `apply` on a move that is neither en passant nor castling. -/
theorem apply_plain (hp : b.pieceAt m.source = some p) (htarget : m.target.isValid = true)
    (hpassed : ¬ (p.pieceType = .pawn ∧ some m.target = b.enPassant ∧ b.pieceAt m.target = none))
    (hcastle : ¬ (p.pieceType = .king ∧ |m.target.file - m.source.file| = 2)) :
    apply m b = some (finishMove p m ((b.put none m.source).put
      (some ⟨m.promotion.getD p.pieceType, p.color⟩) m.target)) := by
  have hsource := valid_of_pieceAt hp
  have hpassed : (decide (p.pieceType = .pawn) && decide (some m.target = b.enPassant) &&
      (b.pieceAt m.target).isNone) = false := by
    rw [← Bool.not_eq_true]
    simpa [and_assoc] using hpassed
  have hcastle : (decide (p.pieceType = .king) && decide (|m.target.file - m.source.file| = 2)) =
      false := by
    rw [← Bool.not_eq_true]
    simpa using hcastle
  simp only [apply, hp, hpassed, hcastle, setPiece_valid hsource, setPiece_valid htarget,
    Option.bind_eq_bind, Option.bind_some, Bool.false_eq_true, if_false, Option.pure_def]

theorem apply_enPassant (hp : b.pieceAt m.source = some p) (htarget : m.target.isValid = true)
    (htype : p.pieceType = .pawn) (hpassed : b.enPassant = some m.target)
    (hempty : b.pieceAt m.target = none) :
    apply m b = some (finishMove p m (((b.put none m.source).put
      (some ⟨m.promotion.getD p.pieceType, p.color⟩) m.target).put none
        ⟨m.target.file, m.source.rank⟩)) := by
  have hsource := valid_of_pieceAt hp
  have hvictim : (⟨m.target.file, m.source.rank⟩ : Square).isValid = true := by
    rw [Square.isValid_iff] at *
    exact ⟨htarget.1, htarget.2.1, hsource.2.2⟩
  simp only [apply, hp, htype, hpassed, hempty, setPiece_valid hsource, setPiece_valid htarget,
    setPiece_valid hvictim, Option.bind_eq_bind, Option.bind_some, decide_true, Option.isNone_none,
    Bool.and_self, if_true, reduceCtorEq, decide_false, Bool.false_and, Bool.false_eq_true, if_false,
    Option.pure_def]

theorem apply_castle {w : Wing} (hp : b.pieceAt ⟨4, homeRank c⟩ = some ⟨.king, c⟩) :
    apply ⟨⟨4, homeRank c⟩, ⟨w.kingTo, homeRank c⟩, none⟩ b =
      some (finishMove ⟨.king, c⟩ ⟨⟨4, homeRank c⟩, ⟨w.kingTo, homeRank c⟩, none⟩
        ((((b.put none ⟨4, homeRank c⟩).put (some ⟨.king, c⟩) ⟨w.kingTo, homeRank c⟩).put none
          (cornerOf c w)).put (some ⟨.rook, c⟩) ⟨w.rookTo, homeRank c⟩)) := by
  have hvalid {f : ℤ} (h : 0 ≤ f) (h' : f ≤ 7) : (⟨f, homeRank c⟩ : Square).isValid = true := by
    rw [Square.isValid_iff]
    cases c <;> exact ⟨h, h', by simp [homeRank], by simp [homeRank]⟩
  cases w <;>
    simp [apply, hp, Wing.kingTo, Wing.rookTo, cornerOf, Wing.corner, setPiece_valid, hvalid]

/-- No pawn advances onto the square just passed over: the pawn that passed is in its way. -/
theorem advance_not_passed (hsound : Sound pos) (hpawn : pieceOn pos.men s = some ⟨.pawn, pos.turn⟩)
    (hadvances : Advances pos.men pos.turn s t) : ¬ PassedOver pos t := by
  intro hpassed
  obtain ⟨last, hlast, hvictim, -⟩ := id hpassed
  obtain ⟨-, -, -, ht, htarget⟩ := hsound.passed t last hpassed hlast
  have hrank := congrArg Square.rank ht
  obtain ⟨hfile, -, hstep | ⟨hstart, hdouble, -⟩⟩ := hadvances
  · have hs : s = last.target := by
      rw [htarget, Square.ext_iff']
      refine ⟨hfile.symm, ?_⟩
      dsimp only at hrank ⊢
      cases hc : pos.turn <;> simp only [hc, forward, homeRank, Color.opposite] at * <;> omega
    rw [hs, hvictim, Option.some.injEq] at hpawn
    exact Color.opposite_ne pos.turn (congrArg Piece.color hpawn)
  · dsimp only at hrank
    cases hc : pos.turn <;> simp only [hc, forward, homeRank, Color.opposite] at * <;> omega

/-- `apply` on a move by the rules leads to a board that shows the position after it. -/
theorem shows_plays (h : Shows b pos) (hsound : Sound pos) (hplay : Plays pos m pos') :
    ∃ b', apply m b = some b' ∧ Shows b' pos' := by
  cases id hplay with
  | @goes s t promo man hman hturn hboard hown hgoes hpromo =>
    have hon := pieceOn_some hman
    have hp : b.pieceAt s = some man.piece := (h.men s).trans hon
    have hpassed : ¬ (man.piece.pieceType = .pawn ∧ some t = b.enPassant ∧ b.pieceAt t = none) := by
      rintro ⟨htype, hpassed, hempty⟩
      have hpiece : man.piece = ⟨.pawn, pos.turn⟩ := by rw [← hturn, ← htype]
      rw [h.men, pieceOn_eq_none] at hempty
      rw [hpiece] at hgoes hon
      rcases hgoes with hadvances | ⟨-, hocc⟩
      · exact advance_not_passed hsound hon hadvances ((h.passed t).mp hpassed.symm)
      · exact hocc hempty
    have hcastle : ¬ (man.piece.pieceType = .king ∧ |t.file - s.file| = 2) := by
      rintro ⟨htype, hfile⟩
      unfold Goes Attacks at hgoes
      rw [if_neg (by rw [htype]; decide), htype] at hgoes
      dsimp only at hgoes
      omega
    refine ⟨_, apply_plain hp hboard hpassed hcastle, shows_finish h hsound hplay hon ?_
      (fun c w => by rw [rights_put, rights_put]) rfl⟩
    intro u
    rw [pieceAt_put hboard, pieceAt_put (hsound.board s man hman), pieceOn_relocate, h.men, ← hturn]
  | @enPassant s t last hpawn hlast hpassed hattacks =>
    obtain ⟨hvictim, -, hempty, hvalid⟩ := hsound.victim hlast hpassed hattacks
    obtain ⟨man, hman, -⟩ := exists_man hpawn
    have hs := hsound.board s man hman
    have hbeside : (⟨t.file, s.rank⟩ : Square).isValid = true := by
      rw [Square.isValid_iff] at *
      exact ⟨hvalid.1, hvalid.2.1, hs.2.2⟩
    refine ⟨_, apply_enPassant ((h.men s).trans hpawn) hvalid rfl ((h.passed t).mpr hpassed)
      ((h.men t).trans (pieceOn_eq_none.mpr hempty)), shows_finish h hsound hplay hpawn ?_
      (fun c w => by rw [rights_put, rights_put, rights_put]) rfl⟩
    intro u
    rw [pieceAt_put hbeside, pieceAt_put hvalid, pieceAt_put hs, pieceOn_update_none, hvictim,
      pieceOn_relocate, h.men]
    rfl
  | castles w hmay =>
    obtain ⟨hking, -, -, -⟩ := mayCastle_squares hmay
    have hvalid {f : ℤ} (hf : 0 ≤ f) (hf' : f ≤ 7) :
        (⟨f, homeRank pos.turn⟩ : Square).isValid = true := by
      rw [Square.isValid_iff]
      cases pos.turn <;> exact ⟨hf, hf', by simp [homeRank], by simp [homeRank]⟩
    have hwing : (0 ≤ w.kingTo ∧ w.kingTo ≤ 7) ∧ (0 ≤ w.corner ∧ w.corner ≤ 7) ∧
        (0 ≤ w.rookTo ∧ w.rookTo ≤ 7) := by
      cases w <;> simp [Wing.kingTo, Wing.corner, Wing.rookTo]
    refine ⟨_, apply_castle ((h.men _).trans hking), shows_finish h hsound hplay hking ?_
      (fun c w => by rw [rights_put, rights_put, rights_put, rights_put]) rfl⟩
    intro u
    rw [pieceAt_put (hvalid hwing.2.2.1 hwing.2.2.2), cornerOf,
      pieceAt_put (hvalid hwing.2.1.1 hwing.2.1.2), pieceAt_put (hvalid hwing.1.1 hwing.1.2),
      pieceAt_put (hvalid (by norm_num) (by norm_num)), pieceOn_castled, h.men]

end

end KaChatIndexer.ChessSuccessor
