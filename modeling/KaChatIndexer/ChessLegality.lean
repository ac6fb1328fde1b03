import KaChatIndexer.ChessSuccessor

/-!
# Games on the board

Every game the engine accepts is a game of chess, and the other way round: on each board reached the
legal moves are those of the laws, and the board after a move shows the position after it.
-/
namespace KaChatIndexer.ChessLegality
open ChessPieces ChessEngine ChessLaws ChessGames ChessRays ChessMoves ChessSuccessor

section
variable {b : Board} {pos pos' : Position} {m : Move}

theorem mem_sideMoves (h : Shows b pos) (hsound : Sound pos) :
    m ∈ sideMoves b ↔ ∃ pos', Plays pos m pos' := by
  unfold sideMoves
  rw [List.mem_flatMap]
  trans ∃ s, s ∈ allSquares ∧ m.source = s ∧ ∃ pos', Plays pos m pos'
  · refine exists_congr fun s => and_congr_right fun _ => ?_
    rw [h.men, h.turn]
    cases hman : pos.men s with
    | none =>
      rw [pieceOn_eq_none.mpr hman]
      refine iff_of_false (by simp) ?_
      rintro ⟨rfl, pos', hplay⟩
      obtain ⟨man, hman', -⟩ := plays_mover hsound hplay
      rw [hman] at hman'
      cases hman'
    | some man =>
      rw [pieceOn_some hman]
      dsimp only
      split_ifs with hturn
      · exact pseudo_iff h hsound hman hturn
      · refine iff_of_false (by simp) ?_
        rintro ⟨rfl, pos', hplay⟩
        obtain ⟨man', hman', hturn', -⟩ := plays_mover hsound hplay
        rw [hman, Option.some.injEq] at hman'
        exact hturn (hman' ▸ hturn')
  · constructor
    · rintro ⟨s, -, -, hplay⟩
      exact hplay
    · rintro ⟨pos', hplay⟩
      obtain ⟨man, hman, -⟩ := plays_mover hsound hplay
      exact ⟨m.source, mem_allSquares.mpr (hsound.board _ _ hman), rfl, pos', hplay⟩

theorem keepSafe_spec {ms : List Move} (hms : ∀ m ∈ ms, ∃ r, apply m b = some r) :
    ∃ kept, keepSafe b ms = some kept ∧ ∀ m, m ∈ kept ↔
      m ∈ ms ∧ ∃ r, apply m b = some r ∧ isKingInCheck b.sideToMove r = false := by
  induction ms with
  | nil => exact ⟨[], rfl, by simp⟩
  | cons m ms ih =>
    obtain ⟨kept, hkept, hmem⟩ := ih fun m' h => hms m' (List.mem_cons_of_mem m h)
    obtain ⟨r, hr⟩ := hms m List.mem_cons_self
    refine ⟨if isKingInCheck b.sideToMove r then kept else m :: kept, by
      simp only [keepSafe, hr, hkept, Option.bind_eq_bind, Option.bind_some, Option.pure_def], ?_⟩
    intro m'
    split_ifs with hcheck
    · rw [hmem, List.mem_cons]
      refine and_congr_left fun ⟨r', hr', hsafe⟩ => ⟨.inr, fun h => h.resolve_left ?_⟩
      rintro rfl
      rw [hr, Option.some.injEq] at hr'
      rw [hr', hsafe] at hcheck
      cases hcheck
    · rw [Bool.not_eq_true] at hcheck
      rw [List.mem_cons, List.mem_cons, hmem, or_and_right]
      refine or_congr (iff_self_and.mpr ?_) Iff.rfl
      rintro rfl
      exact ⟨r, hr, hcheck⟩

/-- The legal moves of a board that shows a position are those the laws allow. -/
theorem legalMoves_spec (h : Shows b pos) (hsound : Sound pos) :
    ∃ moves, legalMoves b = some moves ∧ ∀ m, m ∈ moves ↔ ∃ pos', Legal pos m pos' := by
  have happly : ∀ m ∈ sideMoves b, ∃ r, apply m b = some r := by
    intro m hm
    obtain ⟨pos', hplay⟩ := (mem_sideMoves h hsound).mp hm
    obtain ⟨r, hr, -⟩ := shows_plays h hsound hplay
    exact ⟨r, hr⟩
  obtain ⟨moves, hmoves, hmem⟩ := keepSafe_spec happly
  have hsafe {m : Move} {r : Board} {pos' : Position} (hplay : Plays pos m pos') (hr : Shows r pos') :
      isKingInCheck b.sideToMove r = false ↔ ¬ InCheck pos'.men pos.turn := by
    rw [h.turn, ← Bool.not_eq_true, inCheck_iff hr.men (plays_kings hsound hplay pos.turn)]
  refine ⟨moves, hmoves, fun m => ?_⟩
  rw [hmem, mem_sideMoves h hsound]
  constructor
  · rintro ⟨⟨pos', hplay⟩, r, hr, hcheck⟩
    obtain ⟨r', hr', hshows⟩ := shows_plays h hsound hplay
    obtain rfl : r = r' := Option.some.inj (hr.symm.trans hr')
    exact ⟨pos', hplay, (hsafe hplay hshows).mp hcheck⟩
  · rintro ⟨pos', hplay, hcheck⟩
    obtain ⟨r, hr, hshows⟩ := shows_plays h hsound hplay
    exact ⟨⟨pos', hplay⟩, r, hr, (hsafe hplay hshows).mpr hcheck⟩

theorem isLegal_iff (h : Shows b pos) (hsound : Sound pos) (m : Move) :
    isLegal m b = some true ↔ ∃ pos', Legal pos (normalizingPromotion m b) pos' := by
  obtain ⟨moves, hmoves, hmem⟩ := legalMoves_spec h hsound
  simp only [isLegal, hmoves, Option.bind_eq_bind, Option.bind_some, Option.pure_def,
    Option.some.injEq, List.any_eq_true, decide_eq_true_eq, exists_eq_right, hmem]

end

theorem forall_valid {P : Square → Prop} (h : ∀ f r : Fin 8, P ⟨(f : ℕ), (r : ℕ)⟩) {s : Square}
    (hs : s.isValid = true) : P s := by
  rw [Square.isValid_iff] at hs
  have hp := h ⟨s.file.toNat, by omega⟩ ⟨s.rank.toNat, by omega⟩
  have heq : (⟨s.file.toNat, s.rank.toNat⟩ : Square) = s := by
    rw [Square.ext_iff']
    dsimp only
    omega
  exact heq ▸ hp

theorem start_men : ShowsMen initialBoard start.men := by
  have hpiece (s : Square) : pieceOn start.men s = startPiece s := by
    simp [pieceOn, start, Option.map_map, Function.comp_def]
  intro s
  rw [hpiece]
  by_cases hs : s.isValid = true
  · exact forall_valid (P := fun s => initialBoard.pieceAt s = startPiece s) (by decide) hs
  · unfold Board.pieceAt startPiece
    rw [if_neg hs, if_pos (by simpa using hs)]

theorem start_shows : Shows initialBoard start where
  men := start_men
  turn := rfl
  castle c w := by cases c <;> cases w <;> exact iff_of_true rfl ⟨by decide, by decide⟩
  passed t := iff_of_false (by simp [initialBoard]) fun ⟨_, h, _⟩ => by cases h

theorem start_sound : Sound start := by
  have hking (c : Color) (s : Square) :
      pieceOn start.men s = some ⟨.king, c⟩ ↔ s = ⟨4, homeRank c⟩ := by
    rw [← start_men]
    by_cases hs : s.isValid = true
    · refine forall_valid (P := fun s => initialBoard.pieceAt s = some ⟨.king, c⟩ ↔
        s = ⟨4, homeRank c⟩) ?_ hs
      cases c <;> decide
    · unfold Board.pieceAt
      rw [if_neg hs]
      refine iff_of_false (by simp) ?_
      rintro rfl
      cases c <;> exact hs rfl
  refine ⟨fun s man hman => ?_, fun c => ⟨_, hking c⟩, ?_, fun s c hs => ?_, fun t m _ hm => ?_⟩
  · exact valid_of_pieceAt ((start_men s).trans (pieceOn_some hman))
  · rw [← inCheck_iff start_men ⟨_, hking _⟩]
    decide +kernel
  · rw [← start_men] at hs
    have hvalid := valid_of_pieceAt hs
    revert hs
    refine forall_valid (P := fun s => initialBoard.pieceAt s = some ⟨.pawn, c⟩ →
      s.rank ≠ 0 ∧ s.rank ≠ 7) ?_ hvalid
    cases c <;> decide
  · cases hm

theorem game_sound {ms : List Move} {pos : Position} (h : Game ms pos) : Sound pos := by
  induction h with
  | start => exact start_sound
  | move _ hlegal ih => exact ih.next hlegal

/-- The boards reached by moves that `is_legal` accepts, as the callers apply them. -/
inductive Played : List Move → Board → Prop
  | start : Played [] initialBoard
  | move {ms : List Move} {b b' : Board} {m : Move} (h : Played ms b) (hlegal : isLegal m b = some true)
      (happly : apply (normalizingPromotion m b) b = some b') :
      Played (ms ++ [normalizingPromotion m b]) b'

theorem played_shows {ms : List Move} {b : Board} (h : Played ms b) :
    (∃ pos, Game ms pos) ∧ ∀ pos, Game ms pos → Shows b pos := by
  induction h with
  | start =>
    refine ⟨⟨_, .start⟩, fun pos hgame => ?_⟩
    generalize hms : ([] : List Move) = ms at hgame
    cases hgame with
    | start => exact start_shows
    | move => simp at hms
  | @move ms b b' m _ hlegal happly ih =>
    obtain ⟨⟨pos, hgame⟩, hshows⟩ := ih
    constructor
    · obtain ⟨pos', hpos'⟩ := (isLegal_iff (hshows pos hgame) (game_sound hgame) m).mp hlegal
      exact ⟨pos', .move hgame hpos'⟩
    · intro pos' hgame'
      generalize hms : ms ++ [normalizingPromotion m b] = ms' at hgame'
      cases hgame' with
      | start => simp at hms
      | @move ms₀ pos₀ _ m₀ hgame₀ hlegal₀ =>
        obtain ⟨rfl, hm⟩ := List.append_inj' hms rfl
        obtain rfl := List.singleton_inj.mp hm
        obtain ⟨r, hr, hr'⟩ := shows_plays (hshows pos₀ hgame₀) (game_sound hgame₀) hlegal₀.1
        obtain rfl : b' = r := Option.some.inj (happly.symm.trans hr)
        exact hr'

/-- On every board of a game the engine accepted, it accepts a move exactly when the laws allow it in
the position of that game, and the board after the move shows the position after it. -/
theorem legal_iff_laws (ms : List Move) (b : Board) (h : Played ms b) :
    (∃ pos, Game ms pos) ∧ ∀ pos, Game ms pos → Shows b pos ∧ ∀ m,
      (isLegal m b = some true ↔ ∃ pos', Legal pos (normalizingPromotion m b) pos') ∧
      ∀ pos', Legal pos (normalizingPromotion m b) pos' →
        ∃ b', apply (normalizingPromotion m b) b = some b' ∧ Shows b' pos' := by
  obtain ⟨hexists, hshows⟩ := played_shows h
  refine ⟨hexists, fun pos hgame => ⟨hshows pos hgame, fun m => ⟨?_, fun pos' hlegal => ?_⟩⟩⟩
  · exact isLegal_iff (hshows pos hgame) (game_sound hgame) m
  · exact shows_plays (hshows pos hgame) (game_sound hgame) hlegal.1

def kingPawn : Move := ⟨⟨4, 1⟩, ⟨4, 3⟩, none⟩

/-- The board after 1. e4. -/
def afterKingPawn : Board :=
  { initialBoard with
    squares := fun r f =>
      if r = 1 ∧ f = 4 then none
      else if r = 3 ∧ f = 4 then some ⟨.pawn, .white⟩
      else initialBoard.squares r f
    sideToMove := .black
    enPassant := some ⟨4, 2⟩ }

theorem kingPawn_applied : apply (normalizingPromotion kingPawn initialBoard) initialBoard =
    some afterKingPawn := by decide +kernel

theorem kingPawn_legal : isLegal kingPawn initialBoard = some true := by decide +kernel

theorem kingPawn_by_laws :
    (∃ pos, Game ([] ++ [normalizingPromotion kingPawn initialBoard]) pos) ∧
    ∀ pos, Game ([] ++ [normalizingPromotion kingPawn initialBoard]) pos →
      Shows afterKingPawn pos ∧ ∀ m,
        (isLegal m afterKingPawn = some true ↔
          ∃ pos', Legal pos (normalizingPromotion m afterKingPawn) pos') ∧
        ∀ pos', Legal pos (normalizingPromotion m afterKingPawn) pos' →
          ∃ b', apply (normalizingPromotion m afterKingPawn) afterKingPawn = some b' ∧ Shows b' pos' :=
  legal_iff_laws _ _ (.move .start kingPawn_legal kingPawn_applied)

/-- The boards reached by moves of `legal_moves`. -/
inductive Reached : Board → Prop
  | start : Reached initialBoard
  | move {b b' : Board} {moves : List Move} {m : Move} (h : Reached b)
      (hmoves : legalMoves b = some moves) (hm : m ∈ moves) (happly : apply m b = some b') :
      Reached b'

/-- What the engine relies on: one king a side, none left in check, rights with king and rook at
home, the en-passant square behind a pawn that just passed it, no pawn on a last rank, and no write
outside the array. -/
structure BoardSound (b : Board) : Prop where
  kings : ∀ c, ∃! s, b.pieceAt s = some ⟨.king, c⟩
  safe : isKingInCheck b.sideToMove.opposite b = false
  castleK : ∀ c, b.canCastleK c = true → b.pieceAt ⟨4, homeRank c⟩ = some ⟨.king, c⟩ ∧
    b.pieceAt ⟨7, homeRank c⟩ = some ⟨.rook, c⟩
  castleQ : ∀ c, b.canCastleQ c = true → b.pieceAt ⟨4, homeRank c⟩ = some ⟨.king, c⟩ ∧
    b.pieceAt ⟨0, homeRank c⟩ = some ⟨.rook, c⟩
  passed : ∀ s, b.enPassant = some s → b.pieceAt s = none ∧
    b.pieceAt ⟨s.file, s.rank - forward b.sideToMove.opposite⟩ = none ∧
    b.pieceAt ⟨s.file, s.rank + forward b.sideToMove.opposite⟩ =
      some ⟨.pawn, b.sideToMove.opposite⟩
  pawns : ∀ s c, b.pieceAt s = some ⟨.pawn, c⟩ → s.rank ≠ 0 ∧ s.rank ≠ 7
  writes : ∃ moves, legalMoves b = some moves ∧ ∀ m ∈ moves, ∃ b', apply m b = some b'

theorem reached_shows {b : Board} (h : Reached b) : ∃ pos, Shows b pos ∧ Sound pos := by
  induction h with
  | start => exact ⟨start, start_shows, start_sound⟩
  | @move b b' moves m _ hmoves hm happly ih =>
    obtain ⟨pos, hshows, hsound⟩ := ih
    obtain ⟨moves', hmoves', hmem⟩ := legalMoves_spec hshows hsound
    obtain rfl : moves = moves' := Option.some.inj (hmoves.symm.trans hmoves')
    obtain ⟨pos', hlegal⟩ := (hmem m).mp hm
    obtain ⟨r, hr, hr'⟩ := shows_plays hshows hsound hlegal.1
    obtain rfl : b' = r := Option.some.inj (happly.symm.trans hr)
    exact ⟨pos', hr', hsound.next hlegal⟩

theorem shows_passed {b : Board} {pos : Position} (h : Shows b pos) (hsound : Sound pos) {s : Square}
    (hs : b.enPassant = some s) : b.pieceAt s = none ∧
      b.pieceAt ⟨s.file, s.rank - forward b.sideToMove.opposite⟩ = none ∧
      b.pieceAt ⟨s.file, s.rank + forward b.sideToMove.opposite⟩ =
        some ⟨.pawn, b.sideToMove.opposite⟩ := by
  have hpassed := (h.passed s).mp hs
  obtain ⟨last, hlast, hpawn, -⟩ := id hpassed
  obtain ⟨hempty, hbehind, hsource, hrank, htarget⟩ := hsound.passed s last hpassed hlast
  have hrank := congrArg Square.rank hrank
  dsimp only at hrank
  have hsource : last.source = ⟨s.file, s.rank - forward pos.turn.opposite⟩ := by
    rw [hsource, Square.mk.injEq]
    exact ⟨rfl, by omega⟩
  have htarget : last.target = ⟨s.file, s.rank + forward pos.turn.opposite⟩ := by
    rw [htarget, Square.mk.injEq]
    exact ⟨rfl, by omega⟩
  rw [h.turn, ← hsource, ← htarget, h.men, h.men, h.men]
  exact ⟨pieceOn_eq_none.mpr hempty, pieceOn_eq_none.mpr hbehind, hpawn⟩

/-- Every board reached by legal moves is sound. -/
theorem reached_sound (b : Board) (h : Reached b) : BoardSound b := by
  obtain ⟨pos, hshows, hsound⟩ := reached_shows h
  have hhome {c : Color} {w : Wing} (hright : rights b c w = true) :
      b.pieceAt ⟨4, homeRank c⟩ = some ⟨.king, c⟩ ∧ b.pieceAt (cornerOf c w) = some ⟨.rook, c⟩ := by
    obtain ⟨hking, hrook⟩ := (hshows.castle c w).mp hright
    exact ⟨(hshows.men _).trans (pieceOn_some hking), (hshows.men _).trans (pieceOn_some hrook)⟩
  refine ⟨fun c => ?_, ?_, fun c => @hhome c .king, fun c => @hhome c .queen,
    fun s => shows_passed hshows hsound, fun s c hs => ?_, ?_⟩
  · obtain ⟨k, hk⟩ := hsound.kings c
    exact ⟨k, (hshows.men k).trans ((hk k).mpr rfl), fun s hs =>
      (hk s).mp ((hshows.men s).symm.trans hs)⟩
  · rw [← Bool.not_eq_true, inCheck_iff hshows.men (hsound.kings _), hshows.turn]
    exact hsound.safe
  · exact hsound.pawns s c ((hshows.men s).symm.trans hs)
  · obtain ⟨moves, hmoves, hmem⟩ := legalMoves_spec hshows hsound
    refine ⟨moves, hmoves, fun m hm => ?_⟩
    obtain ⟨pos', hlegal⟩ := (hmem m).mp hm
    obtain ⟨r, hr, -⟩ := shows_plays hshows hsound hlegal.1
    exact ⟨r, hr⟩

theorem kingPawn_reached : Reached afterKingPawn := by
  have hmoves : ∃ moves, legalMoves initialBoard = some moves ∧ kingPawn ∈ moves :=
    ⟨(legalMoves initialBoard).getD [], by decide +kernel, by decide +kernel⟩
  obtain ⟨moves, hmoves, hm⟩ := hmoves
  exact .move .start hmoves hm (by decide +kernel)

theorem kingPawn_sound : BoardSound afterKingPawn := reached_sound afterKingPawn kingPawn_reached

end KaChatIndexer.ChessLegality
