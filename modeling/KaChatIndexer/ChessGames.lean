import KaChatIndexer.ChessLaws

/-!
# What holds in every game

Each side has its one king, the side that just moved is not in check, no pawn stands on a last rank,
and behind a pawn that has just made its double step two squares are empty.
-/
namespace KaChatIndexer.ChessGames
open ChessPieces ChessLaws

structure Sound (pos : Position) : Prop where
  board : ∀ s man, pos.men s = some man → s.isValid = true
  kings : ∀ c, ∃ k, ∀ s, pieceOn pos.men s = some ⟨.king, c⟩ ↔ s = k
  safe : ¬ InCheck pos.men pos.turn.opposite
  pawns : ∀ s c, pieceOn pos.men s = some ⟨.pawn, c⟩ → s.rank ≠ 0 ∧ s.rank ≠ 7
  passed : ∀ t m, PassedOver pos t → pos.last = some m →
    pos.men t = none ∧ pos.men m.source = none ∧
      m.source = ⟨t.file, homeRank pos.turn.opposite + forward pos.turn.opposite⟩ ∧
      t = ⟨t.file, homeRank pos.turn.opposite + 2 * forward pos.turn.opposite⟩ ∧
      m.target = ⟨t.file, homeRank pos.turn.opposite + 3 * forward pos.turn.opposite⟩

section
variable {men : Men} {s t u : Square} {man : Man} {p : Piece} {c : Color}

theorem relocate_apply :
    relocate men s t man u = if u = t then some man else if u = s then none else men u := by
  simp only [relocate, Function.update_apply]

theorem pieceOn_relocate : pieceOn (relocate men s t man) u =
    if u = t then some man.piece else if u = s then none else pieceOn men u := by
  unfold pieceOn
  rw [relocate_apply]
  split_ifs <;> rfl

theorem pieceOn_update_none : pieceOn (Function.update men s none) u =
    if u = s then none else pieceOn men u := by
  unfold pieceOn
  rw [Function.update_apply]
  split_ifs <;> rfl

theorem pieceOn_eq_none : pieceOn men s = none ↔ men s = none := Option.map_eq_none_iff

theorem pieceOn_some (h : men s = some man) : pieceOn men s = some man.piece := by
  rw [pieceOn, h, Option.map_some]

theorem exists_man (h : pieceOn men s = some p) : ∃ man, men s = some man ∧ man.piece = p :=
  Option.map_eq_some_iff.mp h

/-- What goes to an occupied square attacks it. -/
theorem goes_attacks (h : Goes men p s t) (ht : men t ≠ none) : Attacks men p s t := by
  unfold Goes at h
  split_ifs at h
  · rcases h with h | h
    · exact absurd h.2.1 ht
    · exact h.1
  · exact h

/-- A king goes on being the one king of its side where its man goes. -/
theorem kings_relocate (hs : pieceOn men s = some p) (hst : s ≠ t)
    (hking : ∀ c, man.piece = ⟨.king, c⟩ ↔ p = ⟨.king, c⟩)
    (ht : ∀ c, pieceOn men t ≠ some ⟨.king, c⟩) {k : Square}
    (hk : ∀ u, pieceOn men u = some ⟨.king, c⟩ ↔ u = k) :
    ∀ u, pieceOn (relocate men s t man) u = some ⟨.king, c⟩ ↔
      u = if p = ⟨.king, c⟩ then t else k := by
  intro u
  rw [pieceOn_relocate]
  have hks := hk s
  have hkt := hk t
  have hku := hk u
  rw [hs, Option.some.injEq] at hks
  by_cases hut : u = t
  · subst hut
    rw [if_pos rfl, Option.some.injEq, hking]
    split_ifs with hp
    · simp [hp]
    · exact iff_of_false hp fun h => ht c (hku.mpr h)
  · rw [if_neg hut]
    by_cases hus : u = s
    · subst hus
      rw [if_pos rfl]
      split_ifs with hp
      · simp [hut]
      · exact iff_of_false (by simp) fun h => hp (hks.mpr h)
    · rw [if_neg hus, hku]
      split_ifs with hp
      · exact iff_of_false (fun h => hus (h.trans (hks.mp hp).symm)) hut
      · exact Iff.rfl

theorem kings_update_none (hs : ∀ c, pieceOn men s ≠ some ⟨.king, c⟩) {k : Square}
    (hk : ∀ u, pieceOn men u = some ⟨.king, c⟩ ↔ u = k) :
    ∀ u, pieceOn (Function.update men s none) u = some ⟨.king, c⟩ ↔ u = k := by
  intro u
  rw [pieceOn_update_none]
  split_ifs with hus
  · exact iff_of_false (by simp) fun h => hs c (hus ▸ (hk u).mpr h)
  · exact hk u

theorem promotes_king {promo : Option PieceType} (h : Promotes p t promo) (c d : Color) :
    (⟨promo.getD p.pieceType, d⟩ : Piece) = ⟨.king, c⟩ ↔ (⟨p.pieceType, d⟩ : Piece) = ⟨.king, c⟩ := by
  unfold Promotes at h
  split_ifs at h with hp
  · rw [hp.1]
    rcases h with rfl | rfl | rfl | rfl <;> simp
  · rw [h, Option.getD_none]

end

section
variable {pos pos' : Position} {m : Move} {s t : Square} {man : Man} {c : Color}

/-- No king is ever taken. -/
theorem Sound.no_king (h : Sound pos) (hman : pos.men s = some man) (hturn : man.piece.color = pos.turn)
    (hown : ∀ p, pieceOn pos.men t = some p → p.color ≠ pos.turn) (hgoes : Goes pos.men man.piece s t)
    (c : Color) : pieceOn pos.men t ≠ some ⟨.king, c⟩ := by
  intro hking
  have hc : c = pos.turn.opposite := Color.eq_opposite_of_ne (hown _ hking)
  rw [hc] at hking
  have hocc : pos.men t ≠ none := fun hnone => by simp [pieceOn, hnone] at hking
  refine h.safe ⟨t, hking, s, man.piece, pieceOn_some hman, ?_, goes_attacks hgoes hocc⟩
  rw [hturn, Color.opposite_opposite]

theorem ne_of_own (hman : pos.men s = some man) (hturn : man.piece.color = pos.turn)
    (hown : ∀ p, pieceOn pos.men t = some p → p.color ≠ pos.turn) : s ≠ t := by
  rintro rfl
  exact hown _ (pieceOn_some hman) hturn

/-- The pawn taken en passant stands beside the one that takes it. -/
theorem Sound.victim (h : Sound pos) {last : Move} (hlast : pos.last = some last)
    (hpassed : PassedOver pos t) (hattacks : Attacks pos.men ⟨.pawn, pos.turn⟩ s t) :
    last.target = ⟨t.file, s.rank⟩ ∧ pieceOn pos.men last.target = some ⟨.pawn, pos.turn.opposite⟩ ∧
      pos.men t = none ∧ t.isValid = true := by
  obtain ⟨hempty, -, hsource, ht, htarget⟩ := h.passed t last hpassed hlast
  obtain ⟨m, hm, hpawn, -⟩ := hpassed
  obtain rfl : last = m := Option.some.inj (hlast.symm.trans hm)
  have hrank := hattacks.1
  obtain ⟨man, hman, -⟩ := exists_man hpawn
  have hvalid := Square.isValid_iff.mp (h.board _ _ hman)
  rw [htarget] at hvalid ⊢
  have htrank := congrArg Square.rank ht
  dsimp only at hvalid htrank
  refine ⟨?_, htarget ▸ hpawn, hempty, ?_⟩
  · rw [Square.mk.injEq]
    refine ⟨rfl, ?_⟩
    cases hturn : pos.turn <;> rw [hturn] at hrank htrank <;>
      simp only [forward, homeRank, Color.opposite] at * <;> omega
  · rw [Square.isValid_iff]
    cases hturn : pos.turn <;> rw [hturn] at htrank <;>
      simp only [forward, homeRank, Color.opposite] at * <;> omega

/-- Taking en passant leaves the board as if the pawn had been taken on its way. -/
theorem Sound.victim_kept (h : Sound pos) {last : Move} (hlast : pos.last = some last)
    (hpassed : PassedOver pos t) (hpawn : pieceOn pos.men s = some ⟨.pawn, pos.turn⟩)
    (hattacks : Attacks pos.men ⟨.pawn, pos.turn⟩ s t) :
    last.target ≠ s ∧ last.target ≠ t ∧ s ≠ t := by
  obtain ⟨-, hvictim, hempty, -⟩ := h.victim hlast hpassed hattacks
  refine ⟨?_, ?_, ?_⟩
  · intro heq
    rw [heq, hpawn] at hvictim
    exact Color.opposite_ne pos.turn (congrArg Piece.color (Option.some.inj hvictim)).symm
  · intro heq
    rw [heq, pieceOn_eq_none.mpr hempty] at hvictim
    cases hvictim
  · rintro rfl
    rw [pieceOn_eq_none.mpr hempty] at hpawn
    cases hpawn

theorem pieceOn_castled {men : Men} {w : Wing} {u : Square} :
    pieceOn (castled men c w) u =
      if u = ⟨w.rookTo, homeRank c⟩ then some ⟨.rook, c⟩
      else if u = ⟨w.corner, homeRank c⟩ then none
      else if u = ⟨w.kingTo, homeRank c⟩ then some ⟨.king, c⟩
      else if u = ⟨4, homeRank c⟩ then none
      else pieceOn men u := by
  simp only [castled, pieceOn_relocate]

/-- Where the men of a castling side stand, and what is empty. -/
theorem mayCastle_squares {men : Men} {w : Wing} (h : MayCastle men c w) :
    pieceOn men ⟨4, homeRank c⟩ = some ⟨.king, c⟩ ∧
      pieceOn men ⟨w.corner, homeRank c⟩ = some ⟨.rook, c⟩ ∧
      men ⟨w.kingTo, homeRank c⟩ = none ∧ men ⟨w.rookTo, homeRank c⟩ = none := by
  refine ⟨pieceOn_some h.king, pieceOn_some h.rook, h.empty _ ?_, h.empty _ ?_⟩ <;>
    cases w <;> simp [Wing.between, Wing.kingTo, Wing.rookTo]

theorem plays_kings (h : Sound pos) (hplay : Plays pos m pos') (c : Color) :
    ∃ k, ∀ u, pieceOn pos'.men u = some ⟨.king, c⟩ ↔ u = k := by
  obtain ⟨k, hk⟩ := h.kings c
  cases hplay with
  | @goes s t promo man hman hturn hboard hown hgoes hpromo =>
    have hpiece : man.piece = ⟨man.piece.pieceType, pos.turn⟩ := by rw [← hturn]
    refine ⟨_, kings_relocate (pieceOn_some hman) (ne_of_own hman hturn hown) (fun d => ?_)
      (h.no_king hman hturn hown hgoes) hk⟩
    rw [promotes_king hpromo, ← hpiece]
  | @enPassant s t last hpawn hlast hpassed hattacks =>
    obtain ⟨-, hvictim, hempty, -⟩ := h.victim hlast hpassed hattacks
    obtain ⟨hvs, hvt, hst⟩ := h.victim_kept hlast hpassed hpawn hattacks
    refine ⟨_, kings_update_none (fun d => ?_) (kings_relocate hpawn hst (by simp) (fun d => ?_) hk)⟩
    · rw [pieceOn_relocate, if_neg hvt, if_neg hvs, hvictim]
      simp
    · rw [pieceOn_eq_none.mpr hempty]
      simp
  | castles w hmay =>
    obtain ⟨hking, hrook, hkingTo, hrookTo⟩ := mayCastle_squares hmay
    have hne : (⟨w.corner, homeRank pos.turn⟩ : Square) ≠ ⟨w.kingTo, homeRank pos.turn⟩ ∧
        (⟨w.corner, homeRank pos.turn⟩ : Square) ≠ ⟨4, homeRank pos.turn⟩ ∧
        (⟨w.corner, homeRank pos.turn⟩ : Square) ≠ ⟨w.rookTo, homeRank pos.turn⟩ ∧
        (⟨4, homeRank pos.turn⟩ : Square) ≠ ⟨w.kingTo, homeRank pos.turn⟩ ∧
        (⟨w.rookTo, homeRank pos.turn⟩ : Square) ≠ ⟨w.kingTo, homeRank pos.turn⟩ ∧
        (⟨w.rookTo, homeRank pos.turn⟩ : Square) ≠ ⟨4, homeRank pos.turn⟩ := by
      cases w <;> simp [Wing.corner, Wing.kingTo, Wing.rookTo]
    have hfirst := @kings_relocate pos.men ⟨4, homeRank pos.turn⟩ ⟨w.kingTo, homeRank pos.turn⟩
      ⟨⟨.king, pos.turn⟩, true⟩ ⟨.king, pos.turn⟩ c hking hne.2.2.2.1 (fun d => Iff.rfl)
      (fun d => by simp [pieceOn_eq_none.mpr hkingTo]) k hk
    refine ⟨_, kings_relocate (p := ⟨.rook, pos.turn⟩) ?_ hne.2.2.1 (by simp) (fun d => ?_) hfirst⟩
    · rw [pieceOn_relocate, if_neg hne.1, if_neg hne.2.1, hrook]
    · rw [pieceOn_relocate, if_neg hne.2.2.2.2.1, if_neg hne.2.2.2.2.2, pieceOn_eq_none.mpr hrookTo]
      simp

theorem plays_board (h : Sound pos) (hplay : Plays pos m pos') (u : Square) (man : Man)
    (hu : pos'.men u = some man) : u.isValid = true := by
  have hrelocate {men : Men} {s t : Square} {man' : Man}
      (hmen : ∀ u man, men u = some man → u.isValid = true) (ht : t.isValid = true) :
      ∀ u man, relocate men s t man' u = some man → u.isValid = true := by
    intro u man hu
    rw [relocate_apply] at hu
    split_ifs at hu with hut hus
    · exact hut ▸ ht
    · exact hmen u man hu
  cases hplay with
  | goes hman hturn hboard hown hgoes hpromo => exact hrelocate h.board hboard u man hu
  | enPassant hpawn hlast hpassed hattacks =>
    obtain ⟨-, -, -, hvalid⟩ := h.victim hlast hpassed hattacks
    dsimp only at hu
    rw [Function.update_apply] at hu
    split_ifs at hu
    exact hrelocate h.board hvalid u man hu
  | castles w hmay =>
    refine hrelocate (hrelocate h.board ?_) ?_ u man hu <;>
      cases w <;> cases pos.turn <;> rfl

/-- Only a pawn that does not promote is a pawn where it arrives. -/
theorem promotes_pawn {p : Piece} {promo : Option PieceType} {d e : Color}
    (h : Promotes p t promo) (hpawn : (⟨promo.getD p.pieceType, d⟩ : Piece) = ⟨.pawn, e⟩) :
    p.pieceType = .pawn ∧ t.rank ≠ lastRank p.color := by
  unfold Promotes at h
  split_ifs at h with hp
  · rcases h with rfl | rfl | rfl | rfl <;> simp at hpawn
  · rw [h, Option.getD_none] at hpawn
    have htype := congrArg Piece.pieceType hpawn
    exact ⟨htype, fun hrank => hp ⟨htype, hrank⟩⟩

/-- A pawn goes one rank ahead, or two over an empty square from where pawns start. -/
theorem pawn_goes {men : Men} {p : Piece} (h : Goes men p s t) (hp : p.pieceType = .pawn) :
    t.rank = s.rank + forward p.color ∨
      t.file = s.file ∧ s.rank = homeRank p.color + forward p.color ∧
        t.rank = s.rank + 2 * forward p.color ∧ men ⟨s.file, s.rank + forward p.color⟩ = none := by
  unfold Goes at h
  rw [if_pos hp] at h
  rcases h with ⟨hfile, -, hstep | ⟨hstart, hdouble, hempty⟩⟩ | ⟨hattacks, -⟩
  · exact .inl hstep
  · exact .inr ⟨hfile, hstart, hdouble, hempty⟩
  · unfold Attacks at hattacks
    rw [hp] at hattacks
    exact .inl hattacks.1

theorem plays_pawns (h : Sound pos) (hplay : Plays pos m pos') (u : Square) (c : Color)
    (hu : pieceOn pos'.men u = some ⟨.pawn, c⟩) : u.rank ≠ 0 ∧ u.rank ≠ 7 := by
  cases hplay with
  | @goes s t promo man hman hturn hboard hown hgoes hpromo =>
    rw [pieceOn_relocate] at hu
    split_ifs at hu with hut hus
    · obtain ⟨htype, hlast⟩ := promotes_pawn hpromo (Option.some.inj hu)
      have hpiece : pieceOn pos.men s = some ⟨.pawn, man.piece.color⟩ := by
        rw [pieceOn_some hman, ← htype]
      have hrank := h.pawns s _ hpiece
      have hvalid := Square.isValid_iff.mp (h.board s man hman)
      have htvalid := Square.isValid_iff.mp hboard
      rw [hut]
      rcases pawn_goes hgoes htype with hstep | ⟨-, hstart, hdouble, -⟩ <;>
        cases hc : man.piece.color <;>
        simp only [hc, forward, lastRank, homeRank, Color.opposite] at * <;> omega
    · exact h.pawns u c hu
  | @enPassant s t last hpawn hlast hpassed hattacks =>
    rw [pieceOn_update_none] at hu
    split_ifs at hu
    rw [pieceOn_relocate] at hu
    split_ifs at hu with hut hus
    · obtain ⟨-, -, -, ht, -⟩ := h.passed t last hpassed hlast
      have hrank := congrArg Square.rank ht
      rw [hut]
      cases hc : pos.turn <;> simp only [hc, forward, homeRank, Color.opposite] at hrank <;> omega
    · exact h.pawns u c hu
  | castles w hmay =>
    rw [pieceOn_castled] at hu
    split_ifs at hu
    · simp at hu
    · simp at hu
    · exact h.pawns u c hu

theorem plays_last (hplay : Plays pos m pos') : pos'.last = some m ∧ pos'.turn = pos.turn.opposite := by
  cases hplay <;> exact ⟨rfl, rfl⟩

theorem plays_passed (hplay : Plays pos m pos') {t : Square} (hpassed : PassedOver pos' t) :
    pos'.men t = none ∧ pos'.men m.source = none ∧
      m.source = ⟨t.file, homeRank pos.turn + forward pos.turn⟩ ∧
      t = ⟨t.file, homeRank pos.turn + 2 * forward pos.turn⟩ ∧
      m.target = ⟨t.file, homeRank pos.turn + 3 * forward pos.turn⟩ := by
  obtain ⟨m', hm', hpawn, hranks, hfile, hrank⟩ := hpassed
  obtain ⟨hlast, hturn⟩ := plays_last hplay
  obtain rfl : m = m' := Option.some.inj (hlast.symm.trans hm')
  cases hplay with
  | @goes s u promo man hman hcolor hboard hown hgoes hpromo =>
    dsimp only at hpawn hranks hfile hrank ⊢
    rw [pieceOn_relocate, if_pos rfl] at hpawn
    obtain ⟨htype, -⟩ := promotes_pawn hpromo (Option.some.inj hpawn)
    rcases pawn_goes hgoes htype with hstep | ⟨hsame, hstart, hdouble, hempty⟩
    · rw [hstep, add_sub_cancel_left, abs_forward] at hranks
      omega
    · rw [hcolor] at hstart hdouble hempty
      have ht : t = ⟨s.file, s.rank + forward pos.turn⟩ := by
        rw [Square.ext_iff']
        exact ⟨hfile, by dsimp only; omega⟩
      have hforward := forward_cases pos.turn
      have hne (a b : Square) (hab : a.rank ≠ b.rank) : a ≠ b := fun h => hab (congrArg _ h)
      have hsu : s ≠ u := hne s u (by omega)
      have htu : t ≠ u := hne t u (by omega)
      have hts : t ≠ s := hne t s (by omega)
      simp only [relocate_apply, if_neg hsu, if_neg htu, if_neg hts, if_true]
      refine ⟨ht ▸ hempty, trivial, ?_, ?_, ?_⟩
      · rw [hfile, ← hstart]
      · rw [Square.ext_iff', ht]
        refine ⟨rfl, ?_⟩
        dsimp only
        omega
      · rw [Square.ext_iff', hfile]
        refine ⟨hsame, ?_⟩
        dsimp only
        omega
  | @enPassant s u last hpawn' hlast' hpassed hattacks =>
    have hstep := hattacks.1
    dsimp only at hranks hstep
    rw [hstep, add_sub_cancel_left, abs_forward] at hranks
    omega
  | castles w hmay => simp at hranks

/-- Every legal move keeps the position sound. -/
theorem Sound.next (h : Sound pos) (hlegal : Legal pos m pos') : Sound pos' := by
  obtain ⟨hlast, hturn⟩ := plays_last hlegal.1
  refine ⟨plays_board h hlegal.1, plays_kings h hlegal.1, ?_, plays_pawns h hlegal.1, ?_⟩
  · rw [hturn, Color.opposite_opposite]
    exact hlegal.2
  · intro t m' hpassed hm'
    obtain rfl : m = m' := Option.some.inj (hlast.symm.trans hm')
    rw [hturn, Color.opposite_opposite]
    exact plays_passed hlegal.1 hpassed

end

end KaChatIndexer.ChessGames
