import KaChatIndexer.ChessLegality

/-!
# Dead positions

Where each side has at most one bishop or knight beside its king, and two bishops stand on squares of
one colour, no moves lead to a checkmate: the man that gives check attacks squares of one colour only,
so the king can step to a straight neighbour, away from the other king.
-/
namespace KaChatIndexer.ChessDraws
open ChessPieces ChessEngine ChessLaws ChessGames ChessRays ChessMoves ChessSuccessor ChessLegality

/-- The king of the side to move is attacked, and no move is legal. -/
def Mate (pos : Position) : Prop := InCheck pos.men pos.turn ∧ ∀ m pos', ¬ Legal pos m pos'

theorem isCheckmate_spec {b : Board} {pos : Position} (h : Shows b pos) (hsound : Sound pos) :
    ∃ mate, isCheckmate b = some mate ∧ (mate = true ↔ Mate pos) := by
  obtain ⟨moves, hmoves, hmem⟩ := legalMoves_spec h hsound
  refine ⟨isKingInCheck b.sideToMove b && moves.isEmpty, ?_, ?_⟩
  · simp only [isCheckmate, hmoves, Option.bind_eq_bind, Option.bind_some, Option.pure_def]
  · rw [Bool.and_eq_true, h.turn, inCheck_iff h.men (hsound.kings pos.turn), List.isEmpty_iff,
      List.eq_nil_iff_forall_not_mem]
    refine and_congr_right fun _ => forall_congr' fun m => ?_
    rw [hmem, not_exists]

/-! ## Material -/

/-- A man that is no king. -/
def MinorOn (men : Men) (s : Square) (p : Piece) : Prop :=
  pieceOn men s = some p ∧ p.pieceType ≠ .king

structure Poor (men : Men) : Prop where
  minor : ∀ s p, MinorOn men s p → p.pieceType = .bishop ∨ p.pieceType = .knight
  single : ∀ s t p q, MinorOn men s p → MinorOn men t q → p.color = q.color → s = t
  tinted : ∀ s t p q, MinorOn men s p → MinorOn men t q → p.color ≠ q.color →
    p.pieceType = .bishop ∧ isLightSquare s = isLightSquare t

section
variable {b : Board} {men : Men} {s t u : Square} {p q : Piece} {c : Color}

theorem allSquares_nodup : allSquares.Nodup := by decide +kernel

theorem minors_nodup (c : Color) (b : Board) : (minors c b).Nodup := allSquares_nodup.filter _

theorem mem_minors (hmen : ShowsMen b men) : s ∈ minors c b ↔
    ∃ p, pieceOn men s = some p ∧ (p.pieceType = .bishop ∨ p.pieceType = .knight) ∧ p.color = c := by
  unfold minors
  rw [List.mem_filter, mem_allSquares, Bool.or_eq_true, decide_eq_true_eq, decide_eq_true_eq, hmen]
  constructor
  · rintro ⟨-, h | h⟩
    · exact ⟨_, h, .inl rfl, rfl⟩
    · exact ⟨_, h, .inr rfl, rfl⟩
  · rintro ⟨⟨type, color⟩, h, rfl | rfl, rfl⟩
    · exact ⟨valid_of_pieceAt ((hmen s).trans h), .inl h⟩
    · exact ⟨valid_of_pieceAt ((hmen s).trans h), .inr h⟩

theorem length_le_one {l : List Square} (hl : l.Nodup) : l.length ≤ 1 ↔ ∀ s ∈ l, ∀ t ∈ l, s = t := by
  rcases l with _ | ⟨a, _ | ⟨b, rest⟩⟩
  · simp
  · simp
  · refine iff_of_false (by simp) fun h => ?_
    have hab := h a List.mem_cons_self b (List.mem_cons_of_mem a List.mem_cons_self)
    exact (List.nodup_cons.mp hl).1 (hab ▸ List.mem_cons_self)

/-- What the predicate looks at. -/
theorem insufficient_iff (b : Board) : isInsufficientMaterial b = true ↔
    (∀ s p, b.pieceAt s = some p →
      p.pieceType ≠ .pawn ∧ p.pieceType ≠ .rook ∧ p.pieceType ≠ .queen) ∧
    (minors .white b).length ≤ 1 ∧ (minors .black b).length ≤ 1 ∧
    ∀ s ∈ minors .white b, ∀ t ∈ minors .black b,
      (b.pieceAt s).map Piece.pieceType = some .bishop ∧
        (b.pieceAt t).map Piece.pieceType = some .bishop ∧ isLightSquare s = isLightSquare t := by
  have hheavy : (allSquares.any fun sq => (b.pieceAt sq).any fun p : Piece =>
      p.pieceType = .pawn || p.pieceType = .rook || p.pieceType = .queen) = false ↔
      ∀ s p, b.pieceAt s = some p →
        p.pieceType ≠ .pawn ∧ p.pieceType ≠ .rook ∧ p.pieceType ≠ .queen := by
    rw [List.any_eq_false]
    constructor
    · intro h s p hp
      simpa [hp, not_or, and_assoc] using h s (mem_allSquares.mpr (valid_of_pieceAt hp))
    · intro h s _
      cases hp : b.pieceAt s with
      | none => simp
      | some p => simpa [not_or, and_assoc] using h s p hp
  unfold isInsufficientMaterial
  dsimp only
  rw [← hheavy]
  cases allSquares.any fun sq => (b.pieceAt sq).any fun p : Piece =>
      p.pieceType = .pawn || p.pieceType = .rook || p.pieceType = .queen
  · rcases minors .white b with _ | ⟨s, _ | ⟨s', ws⟩⟩ <;>
      rcases minors .black b with _ | ⟨t, _ | ⟨t', bs⟩⟩ <;> simp [and_assoc]
  · simp

theorem minorOn_of_mem (hmen : ShowsMen b men) (h : s ∈ minors c b) :
    ∃ p, MinorOn men s p ∧ p.color = c := by
  obtain ⟨p, hp, htype, hcolor⟩ := (mem_minors hmen).mp h
  refine ⟨p, ⟨hp, fun hking => ?_⟩, hcolor⟩
  rcases htype with htype | htype <;> rw [htype] at hking <;> cases hking

/-- The predicate finds the positions with so little material. -/
theorem poor_iff (hmen : ShowsMen b men) : isInsufficientMaterial b = true ↔ Poor men := by
  rw [insufficient_iff, length_le_one (minors_nodup .white b), length_le_one (minors_nodup .black b)]
  constructor
  · rintro ⟨hlight, hwhite, hblack, hboth⟩
    have hminor (s : Square) (p : Piece) (h : MinorOn men s p) :
        p.pieceType = .bishop ∨ p.pieceType = .knight := by
      obtain ⟨hpawn, hrook, hqueen⟩ := hlight s p ((hmen s).trans h.1)
      have hking := h.2
      cases htype : p.pieceType <;> simp_all
    have hmem {s : Square} {p : Piece} (h : MinorOn men s p) : s ∈ minors p.color b :=
      (mem_minors hmen).mpr ⟨p, h.1, hminor s p h, rfl⟩
    refine ⟨hminor, fun s t p q hp hq hcolor => ?_, fun s t p q hp hq hcolor => ?_⟩
    · have hs := hmem hp
      have ht := hmem hq
      rw [← hcolor] at ht
      cases hc : p.color <;> rw [hc] at hs ht
      · exact hwhite s hs t ht
      · exact hblack s hs t ht
    · have hs := hmem hp
      have ht := hmem hq
      have hps := (hmen s).trans hp.1
      have hqt := (hmen t).trans hq.1
      cases hc : p.color <;> cases hd : q.color <;> rw [hc] at hs hcolor <;> rw [hd] at ht hcolor
      · exact absurd rfl hcolor
      · obtain ⟨hbishop, -, hsame⟩ := hboth s hs t ht
        rw [hps] at hbishop
        exact ⟨Option.some.inj hbishop, hsame⟩
      · obtain ⟨-, hbishop, hsame⟩ := hboth t ht s hs
        rw [hps] at hbishop
        exact ⟨Option.some.inj hbishop, hsame.symm⟩
      · exact absurd rfl hcolor
  · intro hpoor
    have hsingle (c : Color) : ∀ s ∈ minors c b, ∀ t ∈ minors c b, s = t := by
      intro s hs t ht
      obtain ⟨p, hp, hpc⟩ := minorOn_of_mem hmen hs
      obtain ⟨q, hq, hqc⟩ := minorOn_of_mem hmen ht
      exact hpoor.single s t p q hp hq (hpc.trans hqc.symm)
    refine ⟨fun s p hp => ?_, hsingle .white, hsingle .black, fun s hs t ht => ?_⟩
    · have hon : pieceOn men s = some p := (hmen s).symm.trans hp
      by_cases hking : p.pieceType = .king
      · simp [hking]
      · rcases hpoor.minor s p ⟨hon, hking⟩ with h | h <;> simp [h]
    · obtain ⟨p, hp, hpc⟩ := minorOn_of_mem hmen hs
      obtain ⟨q, hq, hqc⟩ := minorOn_of_mem hmen ht
      have hne : p.color ≠ q.color := by
        rw [hpc, hqc]
        decide
      obtain ⟨hbishop, hsame⟩ := hpoor.tinted s t p q hp hq hne
      rw [hmen, hmen, hp.1, hq.1, Option.map_some, Option.map_some, hbishop,
        (hpoor.tinted t s q p hq hp hne.symm).1]
      exact ⟨rfl, rfl, hsame⟩

/-! ## Colours of squares -/

theorem light_congr (h : (s.file + s.rank) % 2 = (t.file + t.rank) % 2) :
    isLightSquare s = isLightSquare t := by
  unfold isLightSquare
  rw [h]

theorem light_ne (h : (s.file + s.rank) % 2 ≠ (t.file + t.rank) % 2) :
    isLightSquare s ≠ isLightSquare t := by
  unfold isLightSquare
  rw [ne_eq, decide_eq_decide]
  omega

theorem diagonal_light (h : Diagonal s t) : isLightSquare s = isLightSquare t := by
  apply light_congr
  rcases abs_eq_abs.mp h.2 with h | h <;> omega

/-- The colour of the squares that a bishop or a knight on `s` attacks. -/
def tint (p : Piece) (s : Square) : Bool :=
  if p.pieceType = .bishop then isLightSquare s else !isLightSquare s

theorem attacks_tint (htype : p.pieceType = .bishop ∨ p.pieceType = .knight) (h : Attacks men p s t) :
    isLightSquare t = tint p s := by
  unfold Attacks at h
  unfold tint
  rcases htype with htype | htype <;> rw [htype] at h ⊢
  · rw [if_pos rfl]
    exact (diagonal_light h.1).symm
  · rw [if_neg (by decide)]
    refine Bool.eq_not.mpr (light_ne ?_)
    dsimp only at h
    rcases h with ⟨hfile, hrank⟩ | ⟨hfile, hrank⟩ <;>
      rcases abs_eq (by norm_num) |>.mp hfile with hf | hf <;>
      rcases abs_eq (by norm_num) |>.mp hrank with hr | hr <;> omega

/-- A straight neighbour. -/
def Beside (s t : Square) : Prop :=
  t.file = s.file ∧ |t.rank - s.rank| = 1 ∨ t.rank = s.rank ∧ |t.file - s.file| = 1

/-- The same square or a neighbour. -/
def Near (s t : Square) : Prop := |t.file - s.file| ≤ 1 ∧ |t.rank - s.rank| ≤ 1

theorem Beside.near (h : Beside s t) : Near s t := by
  rcases h with ⟨hsame, hnext⟩ | ⟨hsame, hnext⟩
  · exact ⟨by rw [hsame, sub_self, abs_zero]; exact zero_le_one, hnext.le⟩
  · exact ⟨hnext.le, by rw [hsame, sub_self, abs_zero]; exact zero_le_one⟩

theorem Beside.light (h : Beside s t) : isLightSquare t ≠ isLightSquare s := by
  apply light_ne
  rcases h with ⟨hsame, hnext⟩ | ⟨hsame, hnext⟩ <;>
    rcases (abs_eq zero_le_one).mp hnext with h | h <;> omega

theorem Beside.ne (h : Beside s t) : s ≠ t := by
  rintro rfl
  exact absurd rfl h.light

theorem Near.symm (h : Near s t) : Near t s := by
  unfold Near at h ⊢
  rw [abs_sub_comm, abs_sub_comm t.rank] at h
  exact h

theorem near_self (s : Square) : Near s s := by
  unfold Near
  rw [sub_self, sub_self, abs_zero]
  exact ⟨zero_le_one, zero_le_one⟩

/-- Bishops and knights attack no square that they stand beside. -/
theorem not_attacks_beside (htype : p.pieceType = .bishop ∨ p.pieceType = .knight) (h : Beside t s) :
    ¬ Attacks men p s t := by
  intro hattack
  unfold Attacks at hattack
  rcases htype with htype | htype <;> rw [htype] at hattack
  · exact h.light (diagonal_light hattack.1)
  · dsimp only at hattack
    rcases h with ⟨hsame, hnext⟩ | ⟨hsame, hnext⟩ <;> rw [hsame, sub_self, abs_zero] at hattack <;>
      rw [abs_sub_comm] at hnext <;> omega

/-- A square beside `s` that is not near a square away from `s`. -/
theorem exists_beside (hs : s.isValid = true) (hfar : ¬ Near s t) :
    ∃ e : Square, e.isValid = true ∧ Beside s e ∧ ¬ Near e t := by
  rw [Square.isValid_iff] at hs
  obtain ⟨f, hf, hfile⟩ : ∃ f : ℤ, (0 ≤ f ∧ f ≤ 7) ∧ |f - s.file| = 1 := by
    by_cases h : s.file = 7
    · exact ⟨6, by omega, by rw [h]; rfl⟩
    · exact ⟨s.file + 1, by omega, by simp⟩
  obtain ⟨r, hr, hrank⟩ : ∃ r : ℤ, (0 ≤ r ∧ r ≤ 7) ∧ |r - s.rank| = 1 := by
    by_cases h : s.rank = 7
    · exact ⟨6, by omega, by rw [h]; rfl⟩
    · exact ⟨s.rank + 1, by omega, by simp⟩
  by_cases hfiles : |t.file - s.file| ≤ 1
  · refine ⟨⟨f, s.rank⟩, Square.isValid_iff.mpr ⟨hf.1, hf.2, hs.2.2⟩, .inr ⟨rfl, hfile⟩, fun h => ?_⟩
    exact hfar ⟨hfiles, h.2⟩
  · refine ⟨⟨s.file, r⟩, Square.isValid_iff.mpr ⟨hs.1, hs.2.1, hr⟩, .inl ⟨rfl, hrank⟩, fun h => ?_⟩
    exact hfiles h.1

end

/-! ## Moves -/

section
variable {pos pos' : Position} {men : Men} {s t u : Square} {man : Man} {p q : Piece} {m : Move}

/-- Where a man on `u` was before the move. -/
def cameFrom (s t u : Square) : Square := if u = t then s else u

theorem minorOn_relocate (hman : men s = some man) (h : MinorOn (relocate men s t ⟨man.piece, true⟩) u q) :
    MinorOn men (cameFrom s t u) q ∧ (u = t → q = man.piece) ∧ (u ≠ t → u ≠ s) := by
  obtain ⟨hon, hking⟩ := h
  rw [pieceOn_relocate] at hon
  unfold cameFrom
  by_cases hut : u = t
  · rw [if_pos hut] at hon ⊢
    have hq : q = man.piece := (Option.some.inj hon).symm
    subst hq
    exact ⟨⟨pieceOn_some hman, hking⟩, fun _ => rfl, fun h => absurd hut h⟩
  · rw [if_neg hut] at hon ⊢
    by_cases hus : u = s
    · rw [if_pos hus] at hon
      cases hon
    · rw [if_neg hus] at hon
      exact ⟨⟨hon, hking⟩, fun h => absurd h hut, fun _ => hus⟩

/-- A bishop keeps the colour of its square, and captures leave fewer men. -/
theorem poor_relocate (h : Poor men) (hman : men s = some man) (hgoes : Goes men man.piece s t) :
    Poor (relocate men s t ⟨man.piece, true⟩) := by
  have hback {u : Square} {q : Piece} := minorOn_relocate (t := t) (u := u) (q := q) hman
  have hlight {u : Square} {q : Piece} (hq : MinorOn (relocate men s t ⟨man.piece, true⟩) u q)
      (hbishop : q.pieceType = .bishop) : isLightSquare (cameFrom s t u) = isLightSquare u := by
    unfold cameFrom
    split_ifs with hut
    · rw [(hback hq).2.1 hut] at hbishop
      unfold Goes Attacks at hgoes
      rw [hbishop, if_neg (by decide)] at hgoes
      rw [hut]
      exact diagonal_light hgoes.1
    · rfl
  refine ⟨fun u q hq => h.minor _ q (hback hq).1, fun u v q r hq hr hcolor => ?_,
    fun u v q r hq hr hcolor => ?_⟩
  · have hsame := h.single _ _ q r (hback hq).1 (hback hr).1 hcolor
    have hu := (hback hq).2.2
    have hv := (hback hr).2.2
    unfold cameFrom at hsame
    split_ifs at hsame with hut hvt hvt
    · rw [hut, hvt]
    · exact absurd hsame.symm (hv hvt)
    · exact absurd hsame (hu hut)
    · exact hsame
  · obtain ⟨hbishop, hsame⟩ := h.tinted _ _ q r (hback hq).1 (hback hr).1 hcolor
    have hbishop' := (h.tinted _ _ r q (hback hr).1 (hback hq).1 hcolor.symm).1
    rw [hlight hq hbishop, hlight hr hbishop'] at hsame
    exact ⟨hbishop, hsame⟩

theorem Poor.piece (h : Poor men) (hp : pieceOn men s = some p) :
    p.pieceType = .king ∨ p.pieceType = .bishop ∨ p.pieceType = .knight := by
  by_cases hking : p.pieceType = .king
  · exact .inl hking
  · exact .inr (h.minor s p ⟨hp, hking⟩)

/-- No move brings more material. -/
theorem Poor.next (h : Poor pos.men) (hplay : Plays pos m pos') : Poor pos'.men := by
  cases hplay with
  | @goes s t promo man hman hturn hboard hown hgoes hpromo =>
    have hpawn : man.piece.pieceType ≠ .pawn := by
      rcases h.piece (pieceOn_some hman) with htype | htype | htype <;> simp [htype]
    unfold Promotes at hpromo
    rw [if_neg fun hp => hpawn hp.1] at hpromo
    subst hpromo
    have hpiece : (⟨(none : Option PieceType).getD man.piece.pieceType, pos.turn⟩ : Piece) = man.piece := by
      rw [← hturn]
      rfl
    rw [hpiece]
    exact poor_relocate h hman hgoes
  | enPassant hpawn hlast hpassed hattacks =>
    rcases h.piece hpawn with htype | htype | htype <;> cases htype
  | castles w hmay =>
    rcases h.piece (pieceOn_some hmay.rook) with htype | htype | htype <;> cases htype

/-- The two kings are not near. -/
theorem kings_far (hsound : Sound pos) {k w : Square} (hk : pieceOn pos.men k = some ⟨.king, pos.turn⟩)
    (hw : pieceOn pos.men w = some ⟨.king, pos.turn.opposite⟩) : ¬ Near k w := by
  intro hnear
  refine hsound.safe ⟨w, hw, k, _, hk, ?_, ?_, hnear⟩
  · rw [Color.opposite_opposite]
  · rintro rfl
    rw [hk] at hw
    exact Color.opposite_ne pos.turn (congrArg Piece.color (Option.some.inj hw)).symm

/-- The king is never mated: it can step beside its square. -/
theorem Poor.not_mate (h : Poor pos.men) (hsound : Sound pos) : ¬ Mate pos := by
  rintro ⟨⟨k, hk, s, p, hs, hcolor, hattack⟩, hno⟩
  obtain ⟨w, hw⟩ := hsound.kings pos.turn.opposite
  obtain ⟨k', hk'⟩ := hsound.kings pos.turn
  obtain rfl : k = k' := (hk' k).mp hk
  have hww := (hw w).mpr rfl
  have hfar := kings_far hsound hk hww
  obtain ⟨man, hman, hpiece⟩ := exists_man hk
  -- who gives check is a bishop or a knight
  have hking {q : Piece} {v : Square} (hq : pieceOn pos.men v = some q) (hqc : q.color = pos.turn.opposite)
      (hqk : q.pieceType = .king) : v = w := by
    obtain ⟨type, color⟩ := q
    obtain rfl : type = .king := hqk
    obtain rfl : color = pos.turn.opposite := hqc
    exact (hw v).mp hq
  have hnotking : p.pieceType ≠ .king := by
    intro hp
    obtain rfl := hking hs hcolor hp
    unfold Attacks at hattack
    rw [hp] at hattack
    exact hfar (Near.symm hattack.2)
  have hminor : MinorOn pos.men s p := ⟨hs, hnotking⟩
  have htint := attacks_tint (h.minor s p hminor) hattack
  obtain ⟨e, hvalid, hbeside, haway⟩ := exists_beside (hsound.board k man hman) hfar
  have hempty : pos.men e = none := by
    rw [← pieceOn_eq_none]
    by_contra hocc
    obtain ⟨q, hq⟩ := Option.ne_none_iff_exists'.mp hocc
    by_cases hqk : q.pieceType = .king
    · by_cases hqc : q.color = pos.turn
      · obtain ⟨type, color⟩ := q
        obtain rfl : type = .king := hqk
        obtain rfl : color = pos.turn := hqc
        exact hbeside.ne ((hk' e).mp hq).symm
      · have hew := hking hq (Color.eq_opposite_of_ne hqc) hqk
        exact haway (hew ▸ near_self w)
    · by_cases hqc : p.color = q.color
      · obtain rfl := h.single s e p q hminor ⟨hq, hqk⟩ hqc
        exact not_attacks_beside (h.minor s p hminor) hbeside hattack
      · obtain ⟨hbishop, hsame⟩ := h.tinted s e p q hminor ⟨hq, hqk⟩ hqc
        rw [tint, if_pos hbishop, hsame] at htint
        exact hbeside.light htint.symm
  have hstep : Plays pos ⟨k, e, none⟩
      ⟨relocate pos.men k e ⟨⟨(none : Option PieceType).getD man.piece.pieceType, pos.turn⟩, true⟩,
        pos.turn.opposite, some ⟨k, e, none⟩⟩ := by
    refine .goes hman (by rw [hpiece]) hvalid (fun q hq => ?_) ?_ ?_
    · rw [pieceOn_eq_none.mpr hempty] at hq
      cases hq
    · rw [hpiece]
      exact ⟨hbeside.ne, hbeside.near⟩
    · rw [hpiece]
      unfold Promotes
      rw [if_neg fun hp => PieceType.noConfusion hp.1]
  refine hno _ _ ⟨hstep, ?_⟩
  rintro ⟨k', hk'', v, q, hv, hqc, hqa⟩
  dsimp only at hk'' hv hqa
  rw [pieceOn_relocate] at hk'' hv
  have hke : k' = e := by
    split_ifs at hk'' with hke hkk
    · exact hke
    · exact absurd ((hk' k').mp hk'') hkk
  subst hke
  split_ifs at hv with hve hvk
  · rw [← Option.some.inj hv] at hqc
    exact Color.opposite_ne pos.turn hqc.symm
  · by_cases hqk : q.pieceType = .king
    · obtain rfl := hking hv hqc hqk
      unfold Attacks at hqa
      rw [hqk] at hqa
      exact haway (Near.symm hqa.2)
    · have hvs := h.single v s q p ⟨hv, hqk⟩ hminor (hqc.trans hcolor.symm)
      subst hvs
      obtain rfl : p = q := Option.some.inj (hs.symm.trans hv)
      exact hbeside.light ((attacks_tint (h.minor v p hminor) hqa).trans htint.symm)

end

/-! ## Continuations -/

/-- The boards that legal moves reach from a board. -/
inductive Continues (b : Board) : Board → Prop
  | refl : Continues b b
  | move {b' b'' : Board} {moves : List Move} {m : Move} (h : Continues b b')
      (hmoves : legalMoves b' = some moves) (hm : m ∈ moves) (happly : apply m b' = some b'') :
      Continues b b''

/-- A continuation with so little material goes on in positions with so little material. -/
theorem continues_poor {b b' : Board} {pos : Position} (h : Shows b pos) (hsound : Sound pos)
    (hpoor : Poor pos.men) (hrun : Continues b b') :
    ∃ pos', Shows b' pos' ∧ Sound pos' ∧ Poor pos'.men := by
  induction hrun with
  | refl => exact ⟨pos, h, hsound, hpoor⟩
  | @move b' b'' moves m _ hmoves hm happly ih =>
    obtain ⟨pos', hshows, hsound', hpoor'⟩ := ih
    obtain ⟨moves', hmoves', hmem⟩ := legalMoves_spec hshows hsound'
    obtain rfl : moves = moves' := Option.some.inj (hmoves.symm.trans hmoves')
    obtain ⟨next, hlegal⟩ := (hmem m).mp hm
    obtain ⟨r, hr, hr'⟩ := shows_plays hshows hsound' hlegal.1
    obtain rfl : b'' = r := Option.some.inj (happly.symm.trans hr)
    exact ⟨next, hr', hsound'.next hlegal, hpoor'.next hlegal.1⟩

/-- Insufficient material stays so, and no continuation is a checkmate. -/
theorem insufficient_dead {b b' : Board} (h : Reached b) (hmaterial : isInsufficientMaterial b = true)
    (hrun : Continues b b') : isInsufficientMaterial b' = true ∧ isCheckmate b' = some false := by
  obtain ⟨pos, hshows, hsound⟩ := reached_shows h
  obtain ⟨pos', hshows', hsound', hpoor⟩ :=
    continues_poor hshows hsound ((poor_iff hshows.men).mp hmaterial) hrun
  obtain ⟨mate, hmate, hiff⟩ := isCheckmate_spec hshows' hsound'
  have hno : mate = false := Bool.eq_false_iff.mpr fun hm => hpoor.not_mate hsound' (hiff.mp hm)
  exact ⟨(poor_iff hshows'.men).mpr hpoor, hno ▸ hmate⟩

/-! ## A game that leaves the kings -/

/-- A move is played if its man may go there and its king stays safe. -/
def playedOn (b : Board) (m : Move) : Option Board :=
  match b.pieceAt m.source with
  | none => none
  | some piece =>
    if piece.color = b.sideToMove ∧ m ∈ pseudoLegalMoves piece m.source b then
      (apply m b).filter fun r => !isKingInCheck b.sideToMove r
    else none

theorem reached_playedOn {b r : Board} {m : Move} (h : Reached b) (hplay : playedOn b m = some r) :
    Reached r := by
  obtain ⟨pos, hshows, hsound⟩ := reached_shows h
  obtain ⟨moves, hmoves, hmem⟩ := legalMoves_spec hshows hsound
  unfold playedOn at hplay
  split at hplay
  · cases hplay
  · next piece hpiece =>
    split_ifs at hplay with hgoes
    obtain ⟨happly, hsafe⟩ := Option.filter_eq_some_iff.mp hplay
    have hside : m ∈ sideMoves b := by
      refine List.mem_flatMap.mpr ⟨m.source, mem_allSquares.mpr (valid_of_pieceAt hpiece), ?_⟩
      rw [hpiece]
      dsimp only
      rw [if_pos hgoes.1]
      exact hgoes.2
    obtain ⟨pos', hlaw⟩ := (mem_sideMoves hshows hsound).mp hside
    obtain ⟨r', hr', hshows'⟩ := shows_plays hshows hsound hlaw
    obtain rfl : r = r' := Option.some.inj (happly.symm.trans hr')
    refine .move h hmoves ((hmem m).mpr ⟨pos', hlaw, ?_⟩) happly
    rw [← inCheck_iff hshows'.men (plays_kings hsound hlaw pos.turn), ← hshows.turn]
    simpa using hsafe

def playAll (ms : List Move) (b : Board) : Option Board := ms.foldlM playedOn b

theorem reached_playAll {b r : Board} {ms : List Move} (h : Reached b) (hplay : playAll ms b = some r) :
    Reached r := by
  induction ms generalizing b with
  | nil => exact Option.some.inj hplay ▸ h
  | cons m ms ih =>
    obtain ⟨b', hb', hrest⟩ := Option.bind_eq_some_iff.mp hplay
    exact ih (reached_playedOn h hb') hrest

/-- From and to, as file and rank. -/
def captures : List ((ℤ × ℤ) × ℤ × ℤ) :=
  [((4, 1), (4, 3)), ((3, 6), (3, 4)), ((4, 3), (3, 4)), ((3, 7), (3, 4)), ((3, 0), (7, 4)),
    ((3, 4), (0, 1)), ((7, 4), (7, 6)), ((0, 1), (1, 1)), ((7, 6), (6, 6)), ((7, 7), (7, 1)),
    ((0, 0), (0, 6)), ((7, 1), (7, 0)), ((0, 6), (0, 7)), ((7, 0), (6, 0)), ((0, 7), (1, 7)),
    ((6, 0), (6, 1)), ((1, 7), (1, 6)), ((6, 1), (5, 1)), ((6, 6), (6, 7)), ((5, 1), (3, 1)),
    ((1, 6), (2, 6)), ((1, 1), (1, 0)), ((6, 7), (5, 7)), ((4, 7), (5, 7)), ((2, 6), (4, 6)),
    ((1, 0), (2, 1)), ((4, 6), (5, 6)), ((5, 7), (5, 6)), ((2, 0), (3, 1)), ((2, 1), (3, 1)),
    ((4, 0), (3, 1))]

def captureGame : List Move := captures.map fun m => ⟨⟨m.1.1, m.1.2⟩, ⟨m.2.1, m.2.2⟩, none⟩

theorem captureGame_plays : (playAll captureGame initialBoard).any isInsufficientMaterial = true := by
  decide +kernel

theorem kings_dead : ∃ b, isInsufficientMaterial b = true ∧ ∀ b', Continues b b' →
    isInsufficientMaterial b' = true ∧ isCheckmate b' = some false := by
  obtain ⟨b, hb, hmaterial⟩ := (Option.any_eq_true _ _).mp captureGame_plays
  exact ⟨b, hmaterial, fun b' hrun =>
    insufficient_dead (reached_playAll .start hb) hmaterial hrun⟩

end KaChatIndexer.ChessDraws
