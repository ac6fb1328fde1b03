import KaChatIndexer.ChessRays

/-!
# Generated moves

On a board that shows a sound position, the generator's moves of a man are the moves the laws give
that man, before the own king's safety is looked at.
-/
namespace KaChatIndexer.ChessMoves
open ChessPieces ChessEngine ChessLaws ChessGames ChessRays

/-- King and rook still stand where they started. -/
def Keeps (men : Men) (c : Color) (w : Wing) : Prop :=
  men ⟨4, homeRank c⟩ = some ⟨⟨.king, c⟩, false⟩ ∧
    men ⟨w.corner, homeRank c⟩ = some ⟨⟨.rook, c⟩, false⟩

def rights (b : Board) (c : Color) : Wing → Bool
  | .king => b.canCastleK c
  | .queen => b.canCastleQ c

/-- The board is the engine's view of the position. -/
structure Shows (b : Board) (pos : Position) : Prop where
  men : ShowsMen b pos.men
  turn : b.sideToMove = pos.turn
  castle : ∀ c w, rights b c w = true ↔ Keeps pos.men c w
  passed : ∀ t, b.enPassant = some t ↔ PassedOver pos t

section
variable {b : Board} {men : Men} {s t : Square} {m : Move} {color : Color}

/-- The target is on the board and holds no man of the colour. -/
def Free (men : Men) (color : Color) (t : Square) : Prop :=
  t.isValid = true ∧ ∀ p, pieceOn men t = some p → p.color ≠ color

theorem stepping_iff (hmen : ShowsMen b men) {offsets : List (ℤ × ℤ)} :
    m ∈ steppingMoves offsets color s b ↔
      ∃ t, Free men color t ∧ (∃ d ∈ offsets, t = s.shift d 1) ∧ m = ⟨s, t, none⟩ := by
  unfold steppingMoves
  rw [List.mem_flatMap]
  trans ∃ d, d ∈ offsets ∧ Free men color (s.shift d 1) ∧ m = ⟨s, s.shift d 1, none⟩
  · refine exists_congr fun d => and_congr_right fun _ => ?_
    unfold Free
    dsimp only
    rw [← hmen]
    cases (s.shift d 1).isValid with
    | false => simp
    | true =>
      cases b.pieceAt (s.shift d 1) with
      | none => simp
      | some p =>
        by_cases hp : p.color = color
        · simp [hp]
        · simp [hp]
  · constructor
    · rintro ⟨d, hd, hfree, hm⟩
      exact ⟨_, hfree, ⟨d, hd, rfl⟩, hm⟩
    · rintro ⟨t, hfree, ⟨d, hd, rfl⟩, hm⟩
      exact ⟨d, hd, hfree, hm⟩

theorem sliding_iff (hmen : ShowsMen b men) {dirs : List (ℤ × ℤ)} :
    m ∈ slidingMoves dirs color s b ↔
      ∃ t, Free men color t ∧ (∃ d ∈ dirs, ∃ n < raySteps, Walk b d (s.shift d 1) n ∧
        t = (s.shift d 1).shift d n) ∧ m = ⟨s, t, none⟩ := by
  unfold slidingMoves Free
  simp only [List.mem_flatMap, slidingMovesLoop_iff, hmen _]
  constructor
  · rintro ⟨d, hd, n, hn, hwalk, hvalid, hother, hm⟩
    exact ⟨_, ⟨hvalid, hother⟩, ⟨d, hd, n, hn, hwalk, rfl⟩, hm⟩
  · rintro ⟨t, ⟨hvalid, hother⟩, ⟨d, hd, n, hn, hwalk, rfl⟩, hm⟩
    exact ⟨d, hd, n, hn, hwalk, hvalid, hother, hm⟩

/-- The moves of a man that attacks where it goes. -/
def Officer (men : Men) (p : Piece) (s : Square) (m : Move) : Prop :=
  ∃ t, Free men p.color t ∧ Attacks men p s t ∧ m = ⟨s, t, none⟩

theorem bishop_moves (hmen : ShowsMen b men) (hs : s.isValid = true) :
    m ∈ slidingMoves diagonalDirs color s b ↔
      ∃ t, Free men color t ∧ (Diagonal s t ∧ Clear men s t) ∧ m = ⟨s, t, none⟩ := by
  rw [sliding_iff hmen]
  refine exists_congr fun t => and_congr_right fun hfree => ?_
  rw [diagonal_walk hmen hs hfree.1]

theorem rook_moves (hmen : ShowsMen b men) (hs : s.isValid = true) :
    m ∈ slidingMoves straightDirs color s b ↔
      ∃ t, Free men color t ∧ (Straight s t ∧ Clear men s t) ∧ m = ⟨s, t, none⟩ := by
  rw [sliding_iff hmen]
  refine exists_congr fun t => and_congr_right fun hfree => ?_
  rw [straight_walk hmen hs hfree.1]

theorem officer_moves (hmen : ShowsMen b men) (hs : s.isValid = true) {type : PieceType}
    (hpawn : type ≠ .pawn) (hking : type ≠ .king) :
    m ∈ pseudoLegalMoves ⟨type, color⟩ s b ↔ Officer men ⟨type, color⟩ s m := by
  cases type with
  | pawn => exact absurd rfl hpawn
  | king => exact absurd rfl hking
  | knight =>
    change m ∈ steppingMoves knightOffsets color s b ↔ _
    rw [stepping_iff hmen]
    simp only [knight_iff]
    rfl
  | bishop => exact bishop_moves hmen hs
  | rook => exact rook_moves hmen hs
  | queen =>
    change m ∈ slidingMoves diagonalDirs color s b ++ slidingMoves straightDirs color s b ↔ _
    rw [List.mem_append, bishop_moves hmen hs, rook_moves hmen hs]
    constructor
    · rintro (⟨t, hfree, ⟨hline, hclear⟩, hm⟩ | ⟨t, hfree, ⟨hline, hclear⟩, hm⟩)
      · exact ⟨t, hfree, ⟨.inl hline, hclear⟩, hm⟩
      · exact ⟨t, hfree, ⟨.inr hline, hclear⟩, hm⟩
    · rintro ⟨t, hfree, ⟨hline | hline, hclear⟩, hm⟩
      · exact .inl ⟨t, hfree, ⟨hline, hclear⟩, hm⟩
      · exact .inr ⟨t, hfree, ⟨hline, hclear⟩, hm⟩

theorem king_steps (hmen : ShowsMen b men) :
    m ∈ steppingMoves kingOffsets color s b ↔ Officer men ⟨.king, color⟩ s m := by
  rw [stepping_iff hmen]
  simp only [king_iff]
  rfl

theorem addMove_iff : m ∈ addMove (lastRank color) s t ↔
    t.isValid = true ∧ ∃ promo, Promotes ⟨.pawn, color⟩ t promo ∧ m = ⟨s, t, promo⟩ := by
  unfold addMove Promotes
  cases t.isValid with
  | false => simp
  | true =>
    by_cases hrank : t.rank = lastRank color
    · simp only [Bool.not_true, Bool.false_eq_true, if_false, hrank, if_true, List.mem_map,
        List.mem_cons, List.not_mem_nil, or_false, true_and, and_self]
      constructor
      · rintro ⟨promo, hpromo, rfl⟩
        exact ⟨some promo, by simpa using hpromo, rfl⟩
      · rintro ⟨promo, rfl | rfl | rfl | rfl, rfl⟩ <;> simp
    · simp [hrank]

theorem pushes_iff (hmen : ShowsMen b men) (hs : s.isValid = true) :
    m ∈ pawnPushes (forward color) (homeRank color + forward color) (lastRank color) s b ↔
    ∃ t promo, t.isValid = true ∧ Advances men color s t ∧ Promotes ⟨.pawn, color⟩ t promo ∧
      m = ⟨s, t, promo⟩ := by
  have hnone (u : Square) : (b.pieceAt u).isNone = true ↔ men u = none := by
    rw [Option.isNone_iff_eq_none, hmen, pieceOn_eq_none]
  -- from the start rank the double step stays on the board, short of the last rank
  have hdouble (hstart : s.rank = homeRank color + forward color) :
      (⟨s.file, s.rank + forward color⟩ : Square).isValid = true ∧
      (⟨s.file, s.rank + forward color * 2⟩ : Square).isValid = true ∧
        s.rank + forward color * 2 ≠ lastRank color := by
    rw [Square.isValid_iff] at hs
    simp only [Square.isValid_iff]
    cases color <;> simp only [forward, homeRank, lastRank, Color.opposite] at * <;> omega
  unfold pawnPushes
  dsimp only
  constructor
  · intro h
    split at h
    · next hsingle =>
      rw [Bool.and_eq_true, hnone] at hsingle
      rcases List.mem_append.mp h with h | h
      · obtain ⟨hvalid, promo, hpromo, hm⟩ := addMove_iff.mp h
        exact ⟨_, promo, hvalid, ⟨rfl, hsingle.2, .inl rfl⟩, hpromo, hm⟩
      · split at h
        · next hboth =>
          rw [Bool.and_eq_true, decide_eq_true_eq, hnone] at hboth
          obtain ⟨-, hvalid, hrank⟩ := hdouble hboth.1
          refine ⟨_, none, hvalid, ⟨rfl, hboth.2, .inr ⟨hboth.1, ?_, hsingle.2⟩⟩, ?_,
            List.mem_singleton.mp h⟩
          · rw [mul_comm]
          · unfold Promotes
            rw [if_neg fun h => hrank h.2]
        · cases h
    · cases h
  · rintro ⟨t, promo, hvalid, ⟨hfile, hempty, hstep | ⟨hstart, hrank, hover⟩⟩, hpromo, hm⟩
    · have ht : t = ⟨s.file, s.rank + forward color⟩ := Square.ext_iff'.mpr ⟨hfile, hstep⟩
      rw [ht] at hvalid hempty hpromo hm
      rw [if_pos (by rw [Bool.and_eq_true, hnone]; exact ⟨hvalid, hempty⟩)]
      exact List.mem_append_left _ (addMove_iff.mpr ⟨hvalid, promo, hpromo, hm⟩)
    · have ht : t = ⟨s.file, s.rank + forward color * 2⟩ :=
        Square.ext_iff'.mpr ⟨hfile, by rw [hrank, mul_comm]⟩
      obtain ⟨hsingle, -, hlast⟩ := hdouble hstart
      rw [ht] at hempty hpromo hm
      rw [if_pos (by rw [Bool.and_eq_true, hnone]; exact ⟨hsingle, hover⟩)]
      refine List.mem_append_right _ ?_
      rw [if_pos (by rw [Bool.and_eq_true, decide_eq_true_eq, hnone]; exact ⟨hstart, hempty⟩)]
      unfold Promotes at hpromo
      rw [if_neg fun h => hlast h.2] at hpromo
      rw [hm, hpromo]
      exact List.mem_singleton_self _

theorem capture_iff (hmen : ShowsMen b men) : m ∈ pawnCapture (lastRank color) color s b t ↔
    t.isValid = true ∧ ((men t ≠ none ∧ (∀ p, pieceOn men t = some p → p.color ≠ color) ∧
        ∃ promo, Promotes ⟨.pawn, color⟩ t promo ∧ m = ⟨s, t, promo⟩) ∨
      men t = none ∧ b.enPassant = some t ∧ m = ⟨s, t, none⟩) := by
  unfold pawnCapture
  rw [hmen t]
  cases hvalid : t.isValid with
  | false => simp
  | true =>
    cases ht : pieceOn men t with
    | none =>
      have hnone := pieceOn_eq_none.mp ht
      by_cases hpassed : some t = b.enPassant
      · simp [hnone, hpassed.symm]
      · simp [hnone, hpassed, Ne.symm hpassed]
    | some p =>
      have hsome : men t ≠ none := fun hnone => by rw [pieceOn_eq_none.mpr hnone] at ht; cases ht
      by_cases hcolor : p.color = color
      · simp [hcolor, hsome]
      · simp [hcolor, hsome, addMove_iff, hvalid]

theorem captures_iff (hmen : ShowsMen b men) :
    (m ∈ ([-1, 1] : List ℤ).flatMap fun off =>
      pawnCapture (lastRank color) color s b ⟨s.file + off, s.rank + forward color⟩) ↔
    ∃ t, Attacks men ⟨.pawn, color⟩ s t ∧ t.isValid = true ∧
      ((men t ≠ none ∧ (∀ p, pieceOn men t = some p → p.color ≠ color) ∧
        ∃ promo, Promotes ⟨.pawn, color⟩ t promo ∧ m = ⟨s, t, promo⟩) ∨
      men t = none ∧ b.enPassant = some t ∧ m = ⟨s, t, none⟩) := by
  rw [List.mem_flatMap]
  constructor
  · rintro ⟨off, hoff, h⟩
    exact ⟨_, pawn_iff.mp ⟨off, hoff, rfl⟩, (capture_iff hmen).mp h⟩
  · rintro ⟨t, hattacks, h⟩
    obtain ⟨off, hoff, rfl⟩ := pawn_iff.mpr hattacks
    exact ⟨off, hoff, (capture_iff hmen).mpr h⟩

theorem pawn_moves (hmen : ShowsMen b men) (hs : s.isValid = true) :
    m ∈ pawnMoves color s b ↔
      (∃ t promo, Free men color t ∧ Goes men ⟨.pawn, color⟩ s t ∧
        Promotes ⟨.pawn, color⟩ t promo ∧ m = ⟨s, t, promo⟩) ∨
      ∃ t, t.isValid = true ∧ Attacks men ⟨.pawn, color⟩ s t ∧ men t = none ∧ b.enPassant = some t ∧
        m = ⟨s, t, none⟩ := by
  have hdirection : (if color = .white then 1 else -1 : ℤ) = forward color := by cases color <;> rfl
  have hstart : (if color = .white then 1 else 6 : ℤ) = homeRank color + forward color := by
    cases color <;> rfl
  have hback : (if color = .white then 7 else 0 : ℤ) = lastRank color := by cases color <;> rfl
  unfold pawnMoves
  dsimp only
  rw [hdirection, hstart, hback, List.mem_append, pushes_iff hmen hs, captures_iff hmen]
  constructor
  · rintro (⟨t, promo, hvalid, hadvances, hpromo, hm⟩ | ⟨t, hattacks, hvalid,
      ⟨hocc, hown, promo, hpromo, hm⟩ | ⟨hempty, hpassed, hm⟩⟩)
    · refine .inl ⟨t, promo, ⟨hvalid, fun p hp => ?_⟩, .inl hadvances, hpromo, hm⟩
      rw [pieceOn_eq_none.mpr hadvances.2.1] at hp
      cases hp
    · exact .inl ⟨t, promo, ⟨hvalid, hown⟩, .inr ⟨hattacks, hocc⟩, hpromo, hm⟩
    · exact .inr ⟨t, hvalid, hattacks, hempty, hpassed, hm⟩
  · rintro (⟨t, promo, ⟨hvalid, hown⟩, hadvances | ⟨hattacks, hocc⟩, hpromo, hm⟩ |
      ⟨t, hvalid, hattacks, hempty, hpassed, hm⟩)
    · exact .inl ⟨t, promo, hvalid, hadvances, hpromo, hm⟩
    · exact .inr ⟨t, hattacks, hvalid, .inl ⟨hocc, hown, promo, hpromo, hm⟩⟩
    · exact .inr ⟨t, hattacks, hvalid, .inr ⟨hempty, hpassed, hm⟩⟩

end

section
variable {b : Board} {pos : Position} {s : Square} {man : Man} {m : Move}

/-- The moves of the man on `s`: where it goes, en passant, castling. -/
theorem exists_plays (hman : pos.men s = some man) (hturn : man.piece.color = pos.turn) :
    (m.source = s ∧ ∃ pos', Plays pos m pos') ↔
      (∃ t promo, Free pos.men pos.turn t ∧ Goes pos.men man.piece s t ∧
        Promotes man.piece t promo ∧ m = ⟨s, t, promo⟩) ∨
      (man.piece.pieceType = .pawn ∧ ∃ t, PassedOver pos t ∧
        Attacks pos.men ⟨.pawn, pos.turn⟩ s t ∧ m = ⟨s, t, none⟩) ∨
      ∃ w, s = ⟨4, homeRank pos.turn⟩ ∧ MayCastle pos.men pos.turn w ∧
        m = ⟨s, ⟨w.kingTo, homeRank pos.turn⟩, none⟩ := by
  constructor
  · rintro ⟨rfl, pos', hplay⟩
    cases hplay with
    | goes hman' hturn' hboard hown hgoes hpromo =>
      obtain rfl := Option.some.inj (hman.symm.trans hman')
      exact .inl ⟨_, _, ⟨hboard, hown⟩, hgoes, hpromo, rfl⟩
    | enPassant hpawn hlast hpassed hattacks =>
      have htype := Option.some.inj ((pieceOn_some hman).symm.trans hpawn)
      exact .inr (.inl ⟨congrArg Piece.pieceType htype, _, hpassed, hattacks, rfl⟩)
    | castles w hmay => exact .inr (.inr ⟨w, rfl, hmay, rfl⟩)
  · rintro (⟨t, promo, ⟨hboard, hown⟩, hgoes, hpromo, rfl⟩ | ⟨htype, t, hpassed, hattacks, rfl⟩ |
      ⟨w, rfl, hmay, rfl⟩)
    · exact ⟨rfl, _, .goes hman hturn hboard hown hgoes hpromo⟩
    · have hpawn : pieceOn pos.men s = some ⟨.pawn, pos.turn⟩ := by
        rw [pieceOn_some hman, ← htype, ← hturn]
      obtain ⟨last, hlast, -⟩ := id hpassed
      exact ⟨rfl, _, .enPassant hpawn hlast hpassed hattacks⟩
    · exact ⟨rfl, _, .castles w hmay⟩

theorem plain_goes {men : Men} {p : Piece} {t : Square} {promo : Option PieceType}
    (hp : p.pieceType ≠ .pawn) :
    Goes men p s t ∧ Promotes p t promo ↔ Attacks men p s t ∧ promo = none := by
  unfold Goes Promotes
  rw [if_neg hp, if_neg fun h => hp h.1]

theorem officer_goes {p : Piece} (hp : p.pieceType ≠ .pawn) (hcolor : p.color = pos.turn) :
    Officer pos.men p s m ↔ ∃ t promo, Free pos.men pos.turn t ∧ Goes pos.men p s t ∧
      Promotes p t promo ∧ m = ⟨s, t, promo⟩ := by
  unfold Officer
  rw [hcolor]
  constructor
  · rintro ⟨t, hfree, hattacks, hm⟩
    obtain ⟨hgoes, hpromo⟩ := (plain_goes hp).mpr ⟨hattacks, rfl⟩
    exact ⟨t, none, hfree, hgoes, hpromo, hm⟩
  · rintro ⟨t, promo, hfree, hgoes, hpromo, hm⟩
    obtain ⟨hattacks, rfl⟩ := (plain_goes hp).mp ⟨hgoes, hpromo⟩
    exact ⟨t, hfree, hattacks, hm⟩

/-- The castling tests of `king_moves` for one wing. -/
theorem castle_iff (h : Shows b pos) (hsound : Sound pos)
    (hking : pieceOn pos.men s = some ⟨.king, pos.turn⟩) (w : Wing) :
    isSquareAttacked s pos.turn.opposite b = false ∧ rights b pos.turn w = true ∧
      (∀ f ∈ w.between, (b.pieceAt ⟨f, homeRank pos.turn⟩).isNone = true) ∧
      (∀ f ∈ [w.rookTo, w.kingTo],
        isSquareAttacked ⟨f, homeRank pos.turn⟩ pos.turn.opposite b = false) ↔
    s = ⟨4, homeRank pos.turn⟩ ∧ MayCastle pos.men pos.turn w := by
  have hattacked {f : ℤ} (hf : f ∈ w.walk) :
      isSquareAttacked ⟨f, homeRank pos.turn⟩ pos.turn.opposite b = false ↔
        ¬ Attacked pos.men pos.turn.opposite ⟨f, homeRank pos.turn⟩ := by
    have hvalid : (⟨f, homeRank pos.turn⟩ : Square).isValid = true := by
      rw [Square.isValid_iff]
      cases w <;> simp only [Wing.walk, Wing.rookTo, Wing.kingTo, List.mem_cons, List.not_mem_nil,
        or_false] at hf <;> cases pos.turn <;> simp only [homeRank] <;> omega
    rw [← attacked_iff h.men hvalid, Bool.not_eq_true]
  have hempty (f : ℤ) : (b.pieceAt ⟨f, homeRank pos.turn⟩).isNone = true ↔
      pos.men ⟨f, homeRank pos.turn⟩ = none := by
    rw [Option.isNone_iff_eq_none, h.men, pieceOn_eq_none]
  have hwalk {f : ℤ} : f ∈ w.walk ↔ f = 4 ∨ f ∈ [w.rookTo, w.kingTo] := List.mem_cons
  simp only [hempty, h.castle]
  constructor
  · rintro ⟨hs, ⟨hkeeps, hrook⟩, hbetween, hsafe⟩
    obtain ⟨k, hk⟩ := hsound.kings pos.turn
    have hhome : s = ⟨4, homeRank pos.turn⟩ :=
      ((hk s).mp hking).trans ((hk _).mp (pieceOn_some hkeeps)).symm
    refine ⟨hhome, hkeeps, hrook, hbetween, fun f hf => ?_⟩
    rw [← hattacked hf]
    rcases hwalk.mp hf with rfl | hf
    · exact hhome ▸ hs
    · exact hsafe f hf
  · rintro ⟨rfl, hmay⟩
    refine ⟨?_, ⟨hmay.king, hmay.rook⟩, hmay.empty, fun f hf => ?_⟩
    · rw [hattacked (hwalk.mpr (.inl rfl))]
      exact hmay.safe 4 (hwalk.mpr (.inl rfl))
    · rw [hattacked (hwalk.mpr (.inr hf))]
      exact hmay.safe f (hwalk.mpr (.inr hf))

theorem king_moves (h : Shows b pos) (hsound : Sound pos)
    (hking : pieceOn pos.men s = some ⟨.king, pos.turn⟩) :
    m ∈ kingMoves pos.turn s b ↔ Officer pos.men ⟨.king, pos.turn⟩ s m ∨
      ∃ w, s = ⟨4, homeRank pos.turn⟩ ∧ MayCastle pos.men pos.turn w ∧
        m = ⟨s, ⟨w.kingTo, homeRank pos.turn⟩, none⟩ := by
  have hrank : (if pos.turn = .white then 0 else 7 : ℤ) = homeRank pos.turn := by
    cases pos.turn <;> rfl
  unfold kingMoves
  dsimp only
  rw [hrank, List.mem_append, king_steps h.men]
  refine or_congr_right ?_
  have hwing (w : Wing) := castle_iff h hsound hking w
  constructor
  · intro hm
    split at hm
    · cases hm
    · next hs =>
      rw [Bool.not_eq_true] at hs
      rcases List.mem_append.mp hm with hm | hm
      · split at hm
        · next hall =>
          simp only [Bool.and_eq_true, Bool.not_eq_true'] at hall
          obtain ⟨⟨⟨⟨hright, h5⟩, h6⟩, hs5⟩, hs6⟩ := hall
          obtain ⟨hhome, hmay⟩ := (hwing .king).mp ⟨hs, hright,
            List.forall_mem_cons.mpr ⟨h5, List.forall_mem_singleton.mpr h6⟩,
            List.forall_mem_cons.mpr ⟨hs5, List.forall_mem_singleton.mpr hs6⟩⟩
          exact ⟨.king, hhome, hmay, List.mem_singleton.mp hm⟩
        · cases hm
      · split at hm
        · next hall =>
          simp only [Bool.and_eq_true, Bool.not_eq_true'] at hall
          obtain ⟨⟨⟨⟨⟨hright, h3⟩, h2⟩, h1⟩, hs3⟩, hs2⟩ := hall
          obtain ⟨hhome, hmay⟩ := (hwing .queen).mp ⟨hs, hright,
            List.forall_mem_cons.mpr ⟨h3, List.forall_mem_cons.mpr ⟨h2,
              List.forall_mem_singleton.mpr h1⟩⟩,
            List.forall_mem_cons.mpr ⟨hs3, List.forall_mem_singleton.mpr hs2⟩⟩
          exact ⟨.queen, hhome, hmay, List.mem_singleton.mp hm⟩
        · cases hm
  · rintro ⟨w, hhome, hmay, hm⟩
    obtain ⟨hs, hright, hempty, hsafe⟩ := (hwing w).mpr ⟨hhome, hmay⟩
    rw [if_neg (by rw [hs]; exact Bool.false_ne_true), List.mem_append]
    cases w with
    | king =>
      simp only [Wing.between, Wing.rookTo, Wing.kingTo, List.forall_mem_cons] at hempty hsafe
      refine .inl ?_
      rw [if_pos (by
        simp only [Bool.and_eq_true, Bool.not_eq_true']
        exact ⟨⟨⟨⟨hright, hempty.1⟩, hempty.2.1⟩, hsafe.1⟩, hsafe.2.1⟩)]
      exact List.mem_singleton.mpr hm
    | queen =>
      simp only [Wing.between, Wing.rookTo, Wing.kingTo, List.forall_mem_cons] at hempty hsafe
      refine .inr ?_
      rw [if_pos (by
        simp only [Bool.and_eq_true, Bool.not_eq_true']
        exact ⟨⟨⟨⟨⟨hright, hempty.1⟩, hempty.2.1⟩, hempty.2.2.1⟩, hsafe.1⟩, hsafe.2.1⟩)]
      exact List.mem_singleton.mpr hm

/-- The generator's moves of a man are the moves of the laws. -/
theorem pseudo_iff (h : Shows b pos) (hsound : Sound pos) (hman : pos.men s = some man)
    (hturn : man.piece.color = pos.turn) :
    m ∈ pseudoLegalMoves man.piece s b ↔ m.source = s ∧ ∃ pos', Plays pos m pos' := by
  have hs := hsound.board s man hman
  have hpiece : man.piece = ⟨man.piece.pieceType, pos.turn⟩ := by rw [← hturn]
  have hon : pieceOn pos.men s = some ⟨man.piece.pieceType, pos.turn⟩ := by
    rw [pieceOn_some hman, ← hpiece]
  have hnot (htype : man.piece.pieceType ≠ .king) : ¬ ∃ w, s = ⟨4, homeRank pos.turn⟩ ∧
      MayCastle pos.men pos.turn w ∧ m = ⟨s, ⟨w.kingTo, homeRank pos.turn⟩, none⟩ := by
    rintro ⟨w, rfl, hmay, -⟩
    have hking := hon.symm.trans (pieceOn_some hmay.king)
    exact htype (congrArg Piece.pieceType (Option.some.inj hking))
  rw [exists_plays hman hturn]
  rw [hpiece]
  cases htype : man.piece.pieceType with
  | pawn =>
    rw [htype] at hnot
    change m ∈ pawnMoves pos.turn s b ↔ _
    rw [pawn_moves h.men hs, or_iff_left (hnot (by decide))]
    refine or_congr Iff.rfl ?_
    simp only [true_and]
    refine exists_congr fun t => ⟨?_, ?_⟩
    · rintro ⟨hvalid, hattacks, hempty, hpassed, hm⟩
      exact ⟨(h.passed t).mp hpassed, hattacks, hm⟩
    · rintro ⟨hpassed, hattacks, hm⟩
      obtain ⟨last, hlast, -⟩ := id hpassed
      obtain ⟨-, -, hempty, hvalid⟩ := hsound.victim hlast hpassed hattacks
      exact ⟨hvalid, hattacks, hempty, (h.passed t).mpr hpassed, hm⟩
  | king =>
    rw [htype] at hon
    change m ∈ kingMoves pos.turn s b ↔ _
    rw [king_moves h hsound hon, officer_goes (by simp) rfl]
    simp
  | _ =>
    rw [htype] at hnot
    rw [officer_moves h.men hs (by simp) (by simp), officer_goes (by simp) rfl, or_iff_left]
    rintro (⟨hpawn, -⟩ | hcastle)
    · cases hpawn
    · exact hnot (by simp) hcastle

end

end KaChatIndexer.ChessMoves
