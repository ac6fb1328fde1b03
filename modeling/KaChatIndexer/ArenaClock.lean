import KaChatIndexer.ArenaReplay

/-!
# Clocks

The clocks of the unfinished games of every room of a replay are within bounds, and every such game
can be played on or claimed, at each block time one of the two and not both. A move charges its
player for the time past the allowance and touches nothing else.
-/
namespace KaChatIndexer.ArenaClock
open ByteStrings ChessPieces ChessEngine ArenaState ArenaReduce ArenaBracket ArenaRooms ArenaReplay
  KeyedReplay

section
variable {g g' : Game} {e : ArenaEvent} {time : Int64}

theorem spend_used (c c' : Color) (ms : Int64) :
    (g.spend c ms).usedMs c' = if c' = c then g.usedMs c + ms else g.usedMs c' := by
  cases c <;> cases c' <;> rfl

theorem finish_clock (w : Bytes) (o : Outcome) (c : Color) :
    (finish g w o time).usedMs c = g.usedMs c ∧ (finish g w o time).lastEventAt = g.lastEventAt :=
  ⟨rfl, rfl⟩

theorem verdict_clock (mover c : Color) : (verdict mover time g).usedMs c = g.usedMs c ∧
    (verdict mover time g).lastEventAt = g.lastEventAt := by
  unfold verdict finishDraw
  split_ifs
  · exact finish_clock ..
  · exact finish_clock ..
  · exact finish_clock ..
  · exact finish_clock ..
  · exact finish_clock ..
  · exact ⟨rfl, rfl⟩

/-- What an accepted move does to the clocks. -/
theorem playMove_clock (h : playMove e g = some g') :
    g.chargedMs (e.blockTime - g.lastEventAt) < clockMs - g.usedMs g.sideToMove ∧
    g'.lastEventAt = e.blockTime ∧ ∀ c, g'.usedMs c = if c = g.sideToMove then
      g.usedMs g.sideToMove + g.chargedMs (e.blockTime - g.lastEventAt) else g.usedMs c := by
  unfold playMove at h
  split_ifs at h
  split at h
  · dsimp only at h
    split_ifs at h with hclock
    cases h
    obtain ⟨-, hlast⟩ := @verdict_clock
      (moved g _ (LiveBoard.mem_moves ‹_›) (g.chargedMs (e.blockTime - g.lastEventAt)) e.blockTime)
      e.blockTime g.sideToMove g.sideToMove
    refine ⟨Int64.not_le.mp hclock, hlast, fun c => ?_⟩
    obtain ⟨hused, -⟩ := @verdict_clock
      (moved g _ (LiveBoard.mem_moves ‹_›) (g.chargedMs (e.blockTime - g.lastEventAt)) e.blockTime)
      e.blockTime g.sideToMove c
    rw [hused]
    exact spend_used ..
  · cases h

theorem claimGame_over (h : claimGame e g = some g') : g'.isOver = true := by
  unfold claimGame at h
  split at h
  · cases h
  · dsimp only at h
    split_ifs at h
    cases h
    rfl

theorem clockMs_toInt : clockMs.toInt = 300000 := by decide

theorem max_toInt (a b : Int64) : (max a b).toInt = max a.toInt b.toInt := by
  change (if a ≤ b then b else a).toInt = _
  split_ifs with h <;> rw [Int64.le_iff_toInt_le] at h <;> omega

theorem charged_nonneg (elapsed : Int64) : 0 ≤ (g.chargedMs elapsed).toInt := by
  unfold Game.chargedMs
  rw [max_toInt]
  exact le_max_right _ _

theorem allowance_cases (ply : ℕ) (startedAt : Int64) :
    0 ≤ (allowanceMs ply startedAt).toInt ∧ (allowanceMs ply startedAt).toInt ≤ 25000 := by
  unfold allowanceMs
  split_ifs <;> decide

/-- The charge in unbounded arithmetic, where the difference of the block times is an `i64`. -/
theorem charged_toInt {elapsed : ℤ} (hle : g.lastEventAt.toInt ≤ time.toInt)
    (helapsed : elapsed = time.toInt - g.lastEventAt.toInt) (hsmall : elapsed < 2 ^ 63) :
    (g.chargedMs (time - g.lastEventAt)).toInt =
      max 0 (elapsed - (allowanceMs (g.movesCount + 1) g.startedAt).toInt) := by
  obtain ⟨hpos, hbound⟩ := allowance_cases (g.movesCount + 1) g.startedAt
  have hdiff : (time - g.lastEventAt).toInt = elapsed := by
    rw [Int64.toInt_sub, ← helapsed, Int.bmod_eq_of_le_mul_two (by omega) (by omega)]
  unfold Game.chargedMs
  rw [max_toInt, Int64.toInt_sub, hdiff, Int.bmod_eq_of_le_mul_two (by omega) (by omega), max_comm]
  rfl

/-- A clock that is not used up is not used up by an accepted charge. -/
theorem used_add {used charged : Int64} (hused : 0 ≤ used.toInt ∧ used.toInt < clockMs.toInt)
    (hcharged : 0 ≤ charged.toInt) (hlt : charged < clockMs - used) :
    0 ≤ (used + charged).toInt ∧ (used + charged).toInt < clockMs.toInt := by
  rw [clockMs_toInt] at hused ⊢
  rw [Int64.lt_iff_toInt_lt, Int64.toInt_sub, clockMs_toInt,
    Int.bmod_eq_of_le_mul_two (by omega) (by omega)] at hlt
  rw [Int64.toInt_add, Int.bmod_eq_of_le_mul_two (by omega) (by omega)]
  omega

end

/-- The clocks of an unfinished game at `now`. -/
structure Ticking (now : ℤ) (g : Game) : Prop where
  used : ∀ c, 0 ≤ (g.usedMs c).toInt ∧ (g.usedMs c).toInt < clockMs.toInt
  last : g.lastEventAt.toInt ≤ now

/-- A room with its bracket in order and its clocks running. -/
structure Clocked (now : ℤ) (t : Tournament) : Prop extends Bracket now t where
  cancelled : t.cancelled = true → t.startedAt = none
  ticking : ∀ id g, t.games.lookup id = some g → g.winner = none → Ticking now g

section
variable {now now' : ℤ} {t : Tournament} {e : ArenaEvent} {g g' : Game} {id id' : Bytes}
  {time ended : Int64}

theorem Ticking.mono (h : Ticking now g) (hle : now ≤ now') : Ticking now' g :=
  ⟨h.used, h.last.trans hle⟩

theorem makeGame_ticking (round index : ℕ) (white black : Bytes) (hle : time.toInt ≤ now) :
    Ticking now (makeGame round index white black time) := by
  have hzero : 0 ≤ (0 : Int64).toInt ∧ (0 : Int64).toInt < clockMs.toInt := by decide
  exact ⟨fun c => by cases c <;> exact hzero, hle⟩

theorem playMove_ticking (h : Ticking now g) (hplay : playMove e g = some g') :
    Ticking e.blockTime.toInt g' := by
  obtain ⟨hlt, hlast, hused⟩ := playMove_clock hplay
  refine ⟨fun c => ?_, le_of_eq (congrArg Int64.toInt hlast)⟩
  rw [hused]
  split_ifs
  · exact used_add (h.used g.sideToMove) (charged_nonneg _) hlt
  · exact h.used c

/-- The end of a game adds a new game, or nothing. -/
theorem advance_games (hg : t.games.lookup id = some g) (hended : g.endedAt = some ended) :
    (advanceAfter t id).cancelled = t.cancelled ∧ (advanceAfter t id).startedAt = t.startedAt ∧
    (∀ id' g', t.games.lookup id' = some g' →
      (advanceAfter t id).games.lookup id' = some g') ∧
    ∀ id' g', (advanceAfter t id).games.lookup id' = some g' → t.games.lookup id' = some g' ∨
      ∃ round index white black, g' = makeGame round index white black ended := by
  rcases advance_cases hg hended with
    ⟨a, b, white, black, whites, -, hnone, -, -, -, heq⟩ | ⟨heq, -⟩
  · rw [heq]
    refine ⟨rfl, rfl, fun id' g' hg' => ?_, fun id' g' hg' => ?_⟩
    · change (withNext t g white black ended whites).games.lookup id' = some g'
      rw [withNext_lookup, if_neg]
      · exact hg'
      · rintro rfl
        rw [show t.games.lookup _ = none from hnone] at hg'
        cases hg'
    · change (withNext t g white black ended whites).games.lookup id' = some g' at hg'
      rw [withNext_lookup] at hg'
      split_ifs at hg'
      · exact .inr ⟨_, _, _, _, (Option.some.inj hg').symm⟩
      · exact .inl hg'
  · rw [heq]
    exact ⟨rfl, rfl, fun _ _ h => h, fun _ _ h => .inl h⟩

/-- A room whose game changed: the other games stay, and a new game may start. -/
theorem change_games (hp : Progress time g g') :
    let t' := if g'.isOver then advanceAfter (withGame t id g') id else withGame t id g'
    t'.cancelled = t.cancelled ∧ t'.startedAt = t.startedAt ∧ t'.games.lookup id = some g' ∧
    (∀ id' g₀, id' ≠ id → t.games.lookup id' = some g₀ → t'.games.lookup id' = some g₀) ∧
    ∀ id' g₀, t'.games.lookup id' = some g₀ → id' = id ∧ g₀ = g' ∨ t.games.lookup id' = some g₀ ∨
      ∃ round index white black, g₀ = makeGame round index white black time := by
  have hself : (withGame t id g').games.lookup id = some g' := by rw [withGame_lookup, if_pos rfl]
  have hother {id' : Bytes} {g₀ : Game} (hne : id' ≠ id) (hg₀ : t.games.lookup id' = some g₀) :
      (withGame t id g').games.lookup id' = some g₀ := by
    rw [withGame_lookup, if_neg hne, hg₀]
  have hback {id' : Bytes} {g₀ : Game} (hg₀ : (withGame t id g').games.lookup id' = some g₀) :
      id' = id ∧ g₀ = g' ∨ t.games.lookup id' = some g₀ := by
    rw [withGame_lookup] at hg₀
    split_ifs at hg₀ with hid
    · exact .inl ⟨hid, (Option.some.inj hg₀).symm⟩
    · exact .inr hg₀
  dsimp only
  rcases hp.result with ⟨hwinner, -⟩ | ⟨w, hwinner, -, hended⟩
  · rw [if_neg (by simp [Game.isOver, hwinner])]
    refine ⟨rfl, rfl, hself, fun _ _ => hother, fun _ _ hg₀ => ?_⟩
    exact (hback hg₀).imp_right .inl
  · rw [if_pos (by simp [Game.isOver, hwinner])]
    obtain ⟨hcancelled, hstarted, hkept, hnew⟩ := advance_games hself hended
    refine ⟨hcancelled, hstarted, hkept id g' hself, fun id' g₀ hne hg₀ => hkept id' g₀ (hother hne hg₀),
      fun id' g₀ hg₀ => ?_⟩
    rcases hnew id' g₀ hg₀ with hg₀ | hfresh
    · exact (hback hg₀).imp_right .inl
    · exact .inr (.inr hfresh)

/-- A room that has not started has no clocks. -/
theorem waiting_clocked (h : Bracket now t) (hstarted : t.startedAt = none) : Clocked now t where
  toBracket := h
  cancelled _ := hstarted
  ticking id g hg := by
    rw [(h.waiting hstarted).1] at hg
    cases hg

theorem onGame_clocked {change : ArenaEvent → Game → Option Game}
    (hprogress : ∀ g g', g.winner = none → g.endedAt = none → change e g = some g' →
      Progress e.blockTime g g')
    (hticking : ∀ g g', Ticking e.blockTime.toInt g → change e g = some g' → g'.winner = none →
      Ticking e.blockTime.toInt g')
    (h : Clocked e.blockTime.toInt t) : Clocked e.blockTime.toInt (onGame change e t) := by
  have hbracket := (onGame_bracket hprogress h.toBracket).1
  rcases onGame_cases change e t with heq | ⟨id, g, g', -, hg, hlive, hopen, hg', heq⟩
  · rw [heq]
    exact h
  · obtain ⟨s, hs⟩ := live_started hlive
    have hwinner := winner_of_open hopen
    have hended := ((h.running s hs).ended id g hg).1.mp hwinner
    obtain ⟨hcancelled, hstarted, -, -, hgames⟩ :=
      @change_games t g g' id e.blockTime (hprogress g g' hwinner hended hg')
    rw [heq] at hbracket ⊢
    refine ⟨hbracket, fun hc => ?_, fun id' g₀ hg₀ hwinner₀ => ?_⟩
    · rw [hstarted]
      exact h.cancelled (hcancelled ▸ hc)
    · rcases hgames id' g₀ hg₀ with ⟨rfl, rfl⟩ | hg₀ | ⟨round, index, white, black, rfl⟩
      · exact hticking g g₀ (h.ticking id' g hg hwinner) hg' hwinner₀
      · exact h.ticking id' g₀ hg₀ hwinner₀
      · exact makeGame_ticking round index white black (le_refl _)

/-- A new seat leaves the room waiting, or starts it. -/
theorem seat_cases (hopen : t.startedAt = none) (hgames : t.games = ∅) :
    (seat e t).startedAt = none ∨
      ∃ t', t'.games = ∅ ∧ t'.cancelled = t.cancelled ∧ seat e t = start t' e.blockTime := by
  obtain ⟨-, -, hstarted, hgames', hcancelled⟩ := @expireSeats_same t e.blockTime
  unfold seat
  dsimp only
  split_ifs
  · exact .inl (hstarted.trans hopen)
  · refine .inr ⟨_, ?_, ?_, rfl⟩
    · exact hgames'.trans hgames
    · exact hcancelled
  · exact .inl (hstarted.trans hopen)

theorem seat_clocked (h : Clocked e.blockTime.toInt t) (hopen : t.isOpen = true) :
    Clocked e.blockTime.toInt (seat e t) := by
  have hstarted := open_started hopen
  have hbracket := @seat_bracket _ t e h.toBracket hstarted
  rcases @seat_cases t e hstarted (h.waiting hstarted).1 with hwaiting | ⟨t', hgames, hcancelled, heq⟩
  · exact waiting_clocked hbracket hwaiting
  · rw [heq] at hbracket ⊢
    obtain ⟨-, -, -, hsame⟩ := @start_same t' e.blockTime
    refine ⟨hbracket, fun hc => ?_, fun id g hg _ => ?_⟩
    · rw [hsame, hcancelled] at hc
      unfold Tournament.isOpen at hopen
      rw [hc] at hopen
      cases hopen
    · obtain ⟨i, pair, white, black, -, -, -, -, rfl⟩ := (start_lookup hgames id g).mp hg
      exact makeGame_ticking 1 i white black (le_refl _)

/-- Leaving and cancelling do not start a room. -/
theorem leave_started : (leave e t).startedAt = t.startedAt := by
  unfold leave
  split <;> rfl

theorem changeOf_clocked (a : Bytes) (h : Clocked e.blockTime.toInt t) :
    Clocked e.blockTime.toInt (changeOf a e t) := by
  unfold changeOf
  split_ifs
  · unfold whenOpen
    split_ifs with hopen
    · have hstarted := open_started hopen
      exact waiting_clocked (leave_bracket h.toBracket hstarted) (leave_started.trans hstarted)
    · exact h
  · have hbracket := (@cancel_bracket _ t e h.toBracket).1
    unfold cancel at hbracket ⊢
    split_ifs at hbracket ⊢ with hcancel
    · rw [Bool.and_eq_true, Bool.and_eq_true] at hcancel
      have hstarted := open_started hcancel.1.1
      exact waiting_clocked hbracket hstarted
    · exact h
  · exact onGame_clocked (fun _ _ hwinner hended => playMove_progress hwinner hended)
      (fun _ _ hticking hplay _ => playMove_ticking hticking hplay) h
  · refine onGame_clocked (fun _ _ _ _ => resignGame_progress) (fun g g' _ hresign hopen => ?_) h
    obtain ⟨c, -, rfl⟩ := Option.map_eq_some_iff.mp hresign
    cases hopen
  · refine onGame_clocked (fun _ _ _ _ => claimGame_progress) (fun g g' _ hclaim hopen => ?_) h
    have hover := claimGame_over hclaim
    rw [Game.isOver, hopen] at hover
    cases hover
  · exact h

theorem clocked_preserved (env : ArenaEnv) :
    Preserved (roomAfter env) (fun e => e.blockTime.toInt) Clocked where
  mono now now' t hle h := ⟨h.toBracket.mono hle, h.cancelled,
    fun id g hg hwinner => (h.ticking id g hg hwinner).mono hle⟩
  step e room t h hafter := by
    have hor {other : Option Tournament} (hother : ∀ t₀, other = some t₀ → Clocked e.blockTime.toInt t₀)
        {t₀ : Tournament} (ht₀ : room.or other = some t₀) : Clocked e.blockTime.toInt t₀ := by
      cases room with
      | none => exact hother t₀ ht₀
      | some t₁ => exact h t₀ ht₀
    unfold roomAfter at hafter
    split_ifs at hafter
    · refine hor (fun t₀ ht₀ => waiting_clocked (created_bracket ht₀) ?_) hafter
      exact created_started ht₀
    · obtain ⟨t₀, ht₀, rfl⟩ := Option.map_eq_some_iff.mp hafter
      have hbefore := hor (fun t₀ ht₀ => waiting_clocked (opened_bracket ht₀) (opened_started ht₀)) ht₀
      unfold whenOpen
      split_ifs with hopen
      · exact seat_clocked hbefore hopen
      · exact hbefore
    · obtain ⟨t₀, ht₀, rfl⟩ := Option.map_eq_some_iff.mp hafter
      exact changeOf_clocked _ (h t₀ ht₀)

end

/-- The game under an id of a room. -/
def gameAt (rooms : Rooms) (k id : Bytes) : Option Game :=
  (rooms.lookup k).bind fun t => t.games.lookup id

/-- A legal, correctly numbered move by the side to move. -/
structure MoveOf (k id : Bytes) (g : Game) (e : ArenaEvent) : Prop where
  room : e.message.t = k
  action : e.message.a = ascii "move"
  game : e.message.g = some id
  sender : e.sender = g.playerToMove
  number : e.message.n.map Int64.toInt = some (g.movesCount + 1)
  legal : ∃ source target, e.message.source.bind fromAlgebraic = some source ∧
    e.message.target.bind fromAlgebraic = some target ∧
    ChessEngine.isLegal (normalizingPromotion
      ⟨source, target, fromPromotionLetter e.message.promo⟩ g.board.1) g.board.1 = some true

/-- A claim by the opponent of the side to move. -/
structure ClaimOf (k id : Bytes) (g : Game) (e : ArenaEvent) : Prop where
  room : e.message.t = k
  action : e.message.a = ascii "claim"
  game : e.message.g = some id
  sender : e.sender = g.addressOf g.sideToMove.opposite

/-- What an accepted move charges. Block times are `i64`, and so is what is charged for them. -/
structure Charged (e : ArenaEvent) (g g' : Game) : Prop where
  mover : (g'.usedMs g.sideToMove).toInt =
    (g.usedMs g.sideToMove).toInt + (g.chargedMs (e.blockTime - g.lastEventAt)).toInt
  past : ∀ elapsed : ℤ, elapsed = e.blockTime.toInt - g.lastEventAt.toInt → 0 ≤ elapsed →
    elapsed < 2 ^ 63 → (g.chargedMs (e.blockTime - g.lastEventAt)).toInt =
      max 0 (elapsed - (allowanceMs (g.movesCount + 1) g.startedAt).toInt)
  opponent : g'.usedMs g.sideToMove.opposite = g.usedMs g.sideToMove.opposite

section
variable {g g' : Game} {e : ArenaEvent} {k id : Bytes}

theorem verdict_moves (mover : Color) (time : Int64) :
    (verdict mover time g).movesCount = g.movesCount := by
  unfold verdict finishDraw
  split_ifs <;> rfl

theorem playMove_sender (h : playMove e g = some g') : e.sender = g.playerToMove := by
  by_contra hne
  unfold playMove at h
  rw [if_pos fun heq => hne heq.symm] at h
  cases h

theorem playMove_moves (h : playMove e g = some g') : g'.movesCount = g.movesCount + 1 := by
  unfold playMove at h
  split_ifs at h
  split at h
  · dsimp only at h
    split_ifs at h
    cases h
    exact verdict_moves ..
  · cases h

/-- A move is accepted while the clock lasts. -/
theorem MoveOf.accepted (h : MoveOf k id g e) : playMove e g ≠ none ↔
    g.chargedMs (e.blockTime - g.lastEventAt) < clockMs - g.usedMs g.sideToMove := by
  obtain ⟨source, target, hsource, htarget, hlegal⟩ := h.legal
  rw [LiveBoard.isLegal_eq, Option.some.injEq] at hlegal
  unfold playMove
  rw [if_neg (by simp [h.sender]), if_neg (by simp [h.number]), hsource, htarget]
  dsimp only
  rw [dif_pos hlegal, ← Int64.not_le]
  split_ifs with hclock
  · simp [hclock]
  · simp [hclock]

theorem colorOf_address (hne : g.white ≠ g.black) (c : Color) :
    g.colorOf (g.addressOf c) = some c := by
  cases c
  · exact if_pos rfl
  · change (if g.black = g.white then some Color.white else if g.black = g.black then _ else _) = _
    rw [if_neg hne.symm, if_pos rfl]

/-- A claim is refused while the clock lasts. -/
theorem ClaimOf.refused (h : ClaimOf k id g e) (hne : g.white ≠ g.black) : claimGame e g = none ↔
    g.chargedMs (e.blockTime - g.lastEventAt) < clockMs - g.usedMs g.sideToMove := by
  have hcolor : g.colorOf e.sender = some g.sideToMove.opposite := by
    rw [h.sender, colorOf_address hne]
  unfold claimGame
  rw [hcolor]
  dsimp only
  rw [if_neg (Color.opposite_ne g.sideToMove)]
  split_ifs with hclock
  · simp [hclock]
  · simp [hclock]

theorem playMove_charged {now : ℤ} (hticking : Ticking now g) (h : playMove e g = some g') :
    Charged e g g' := by
  obtain ⟨hlt, -, hused⟩ := playMove_clock h
  refine ⟨?_, fun elapsed helapsed hpos hsmall => ?_, ?_⟩
  · rw [hused, if_pos rfl]
    have hbound := hticking.used g.sideToMove
    have hcharged := @charged_nonneg g (e.blockTime - g.lastEventAt)
    rw [clockMs_toInt] at hbound
    rw [Int64.lt_iff_toInt_lt, Int64.toInt_sub, clockMs_toInt,
      Int.bmod_eq_of_le_mul_two (by omega) (by omega)] at hlt
    rw [Int64.toInt_add, Int.bmod_eq_of_le_mul_two (by omega) (by omega)]
  · exact charged_toInt (by omega) helapsed hsmall
  · rw [hused, if_neg (Color.opposite_ne _)]

end

section
variable {env : ArenaEnv} {rooms : Rooms} {t : Tournament} {g g' : Game} {e : ArenaEvent}
  {k id : Bytes} {change : ArenaEvent → Game → Option Game}

/-- The action that changes a game by `change`. -/
def GameAction (change : ArenaEvent → Game → Option Game) (a : Bytes) : Prop :=
  a ≠ ascii "create" ∧ a ≠ ascii "join" ∧ changeOf a = onGame change

theorem moveAction : GameAction playMove (ascii "move") := ⟨by decide, by decide, rfl⟩

theorem claimAction : GameAction claimGame (ascii "claim") := ⟨by decide, by decide, rfl⟩

/-- The rooms after a game action: the room of the event changed. -/
theorem gameAction_lookup (ha : GameAction change e.message.a) (k : Bytes) :
    (applyEvent env e rooms).lookup k =
      if k = e.message.t then (rooms.lookup k).map (onGame change e) else rooms.lookup k := by
  obtain ⟨hcreate, hjoin, hchange⟩ := ha
  rw [applyEvent_keyed env]
  unfold roomAfter
  rw [if_neg hcreate, if_neg hjoin, hchange]

/-- A game action on an unfinished game of a live room changes the rooms exactly when accepted. -/
theorem gameAction_same (ha : GameAction change e.message.a) (ht : rooms.lookup e.message.t = some t)
    (hlive : t.isLive = true) (hid : e.message.g = some id) (hg : t.games.lookup id = some g)
    (hopen : g.isOver = false)
    (hchange : ∀ g', change e g = some g' → Progress e.blockTime g g' ∧ g' ≠ g) :
    applyEvent env e rooms = rooms ↔ change e g = none := by
  have hroom := @onGame_open t e change id g hlive hid hg hopen
  have hafter := @gameAction_lookup env rooms e change ha e.message.t
  rw [if_pos rfl, ht, Option.map_some, hroom] at hafter
  constructor
  · intro hsame
    cases hnew : change e g with
    | none => rfl
    | some g' =>
      obtain ⟨hprogress, hne⟩ := hchange g' hnew
      obtain ⟨-, -, hself, -⟩ := @change_games t g g' id e.blockTime hprogress
      rw [hsame, ht, hnew, Option.some.injEq] at hafter
      dsimp only at hafter
      rw [← hafter, hg, Option.some.injEq] at hself
      exact absurd hself.symm hne
  · intro hnone
    rw [hnone] at hafter
    refine Finmap.ext_lookup fun k => ?_
    by_cases hk : k = e.message.t
    · rw [hk, hafter, ht]
    · rw [gameAction_lookup ha, if_neg hk]

/-- An accepted move, and what is left as it was. -/
structure Accepted (env : ArenaEnv) (rooms : Rooms) (e : ArenaEvent) (id : Bytes) (g g' : Game) :
    Prop where
  named : e.message.g = some id
  before : gameAt rooms e.message.t id = some g
  unfinished : g.isOver = false
  mover : e.sender = g.playerToMove
  after : gameAt (applyEvent env e rooms) e.message.t id = some g'
  charged : Charged e g g'
  others : ∀ k' id' g₀, (k', id') ≠ (e.message.t, id) → gameAt rooms k' id' = some g₀ →
    gameAt (applyEvent env e rooms) k' id' = some g₀

/-- What the clocks promise in the rooms of a replay, with the events still to come. -/
structure ClockExact (env : ArenaEnv) (rooms : Rooms) (later : List ArenaEvent) : Prop where
  used : ∀ k id g, gameAt rooms k id = some g → g.isOver = false → ∀ c,
    0 ≤ (g.usedMs c).toInt ∧ (g.usedMs c).toInt < clockMs.toInt
  last : ∀ k id g, gameAt rooms k id = some g → g.isOver = false → ∀ e ∈ later,
    g.lastEventAt ≤ e.blockTime
  choice : ∀ k id g move claim, gameAt rooms k id = some g → g.isOver = false →
    MoveOf k id g move → ClaimOf k id g claim → move.blockTime = claim.blockTime →
    g.lastEventAt ≤ move.blockTime →
      (applyEvent env move rooms ≠ rooms ↔ applyEvent env claim rooms = rooms)
  charge : ∀ e, e.message.a = ascii "move" → applyEvent env e rooms ≠ rooms →
    ∃ id g g', Accepted env rooms e id g g'

theorem gameAt_room (h : gameAt rooms k id = some g) :
    ∃ t, rooms.lookup k = some t ∧ t.games.lookup id = some g := Option.bind_eq_some_iff.mp h

theorem clocked_started {now : ℤ} (h : Clocked now t) (hg : t.games.lookup id = some g) :
    ∃ s, t.startedAt = some s := by
  cases hs : t.startedAt with
  | some s => exact ⟨s, rfl⟩
  | none =>
    rw [(h.waiting hs).1] at hg
    cases hg

/-- An unfinished game is in a live room. -/
theorem clocked_live {now : ℤ} (h : Clocked now t) (hg : t.games.lookup id = some g)
    (hopen : g.isOver = false) : t.isLive = true := by
  obtain ⟨s, hs⟩ := clocked_started h hg
  have hfinished := unfinished_room h.capacity h.distinct (h.running s hs) hg (winner_of_open hopen)
  have hcancelled : t.cancelled = false := by
    cases hc : t.cancelled with
    | false => rfl
    | true => exact absurd (hs.symm.trans (h.cancelled hc)) (by simp)
  unfold Tournament.isLive
  rw [hcancelled, hs, hfinished]
  rfl

theorem clocked_players {now : ℤ} (h : Clocked now t) (hg : t.games.lookup id = some g) :
    g.white ≠ g.black := by
  obtain ⟨s, hs⟩ := clocked_started h hg
  exact (running_played h.capacity h.distinct (h.running s hs)).home_ne_away
    (running_drawn (h.running s hs) hg)

/-- An action that changes the rooms changed a game. -/
theorem gameAction_changed (ha : GameAction change e.message.a) (hne : applyEvent env e rooms ≠ rooms) :
    ∃ t id g g', rooms.lookup e.message.t = some t ∧ e.message.g = some id ∧
      t.games.lookup id = some g ∧ g.isOver = false ∧ change e g = some g' ∧
      (applyEvent env e rooms).lookup e.message.t = some
        (if g'.isOver then advanceAfter (withGame t id g') id else withGame t id g') := by
  have hafter := @gameAction_lookup env rooms e change ha
  cases ht : rooms.lookup e.message.t with
  | none =>
    refine absurd (Finmap.ext_lookup fun k => ?_) hne
    rw [hafter]
    split_ifs with hk
    · rw [hk, ht]
      rfl
    · rfl
  | some t =>
    rcases onGame_cases change e t with heq | ⟨id, g, g', hid, hg, -, hopen, hg', heq⟩
    · refine absurd (Finmap.ext_lookup fun k => ?_) hne
      rw [hafter]
      split_ifs with hk
      · rw [hk, ht, Option.map_some, heq]
      · rfl
    · refine ⟨t, id, g, g', rfl, hid, hg, hopen, hg', ?_⟩
      rw [hafter, if_pos rfl, ht, Option.map_some, heq]

end

/-- The rooms at a point of a replay in chain order, and the events still to come. -/
def ReplayAt (env : ArenaEnv) (events : List ArenaEvent) (rooms : Rooms) (later : List ArenaEvent) :
    Prop := ∃ before, before ++ later = chainOrder events ∧ rooms = applyAll env ∅ before

section
variable {env : ArenaEnv} {events later : List ArenaEvent} {rooms : Rooms}

theorem ReplayAt.clocked (h : ReplayAt env events rooms later) {k : Bytes} {t : Tournament}
    (ht : rooms.lookup k = some t) {now : ℤ} (hnow : ∀ before, before ++ later = chainOrder events →
      ∀ e ∈ before, e.blockTime.toInt ≤ now) : Clocked now t := by
  obtain ⟨before, heq, rfl⟩ := h
  have hsorted := chainOrder_sorted events
  rw [← heq] at hsorted
  exact (applyEvent_keyed env).invariant (clocked_preserved env) (List.pairwise_append.mp hsorted).1
    (hnow before heq) ht

theorem ReplayAt.clocked_end (h : ReplayAt env events rooms later) {k : Bytes} {t : Tournament}
    (ht : rooms.lookup k = some t) : Clocked (2 ^ 63) t :=
  h.clocked ht fun _ _ e _ => e.blockTime.toInt_lt.le

/-- Clocks of unfinished games never run out unnoticed, and a move and a claim exclude each other. -/
theorem clock_exact (h : ReplayAt env events rooms later) : ClockExact env rooms later where
  used k id g hat hopen := by
    obtain ⟨t, ht, hg⟩ := gameAt_room hat
    exact ((h.clocked_end ht).ticking id g hg (winner_of_open hopen)).used
  last k id g hat hopen e he := by
    obtain ⟨t, ht, hg⟩ := gameAt_room hat
    rw [Int64.le_iff_toInt_le]
    refine ((h.clocked ht fun before heq e' he' => ?_).ticking id g hg (winner_of_open hopen)).last
    have hsorted := chainOrder_sorted events
    rw [← heq] at hsorted
    exact (List.pairwise_append.mp hsorted).2.2 e' he' e he
  choice k id g move claim hat hopen hmove hclaim htime _ := by
    obtain ⟨t, ht, hg⟩ := gameAt_room hat
    have hclocked := h.clocked_end ht
    have hlive := clocked_live hclocked hg hopen
    have hwinner := winner_of_open hopen
    obtain ⟨s, hs⟩ := live_started hlive
    have hended := ((hclocked.running s hs).ended id g hg).1.mp hwinner
    have hplayed : applyEvent env move rooms = rooms ↔ playMove move g = none := by
      refine gameAction_same (hmove.action ▸ moveAction) (hmove.room ▸ ht) hlive hmove.game hg hopen
        fun g' hg' => ⟨playMove_progress hwinner hended hg', fun heq => ?_⟩
      have hmoves := playMove_moves hg'
      rw [heq] at hmoves
      omega
    have hclaimed : applyEvent env claim rooms = rooms ↔ claimGame claim g = none := by
      refine gameAction_same (hclaim.action ▸ claimAction) (hclaim.room ▸ ht) hlive hclaim.game hg hopen
        fun g' hg' => ⟨claimGame_progress hg', fun heq => ?_⟩
      rw [heq] at hg'
      have hover := claimGame_over hg'
      rw [hopen] at hover
      cases hover
    rw [hclaimed, hclaim.refused (clocked_players hclocked hg), Ne, hplayed, ← htime]
    exact hmove.accepted
  charge e ha hne := by
    obtain ⟨t, id, g, g', ht, hid, hg, hopen, hplay, hafter⟩ :=
      gameAction_changed (ha ▸ moveAction) hne
    have hclocked := h.clocked_end ht
    have hwinner := winner_of_open hopen
    obtain ⟨s, hs⟩ := clocked_started hclocked hg
    have hended := ((hclocked.running s hs).ended id g hg).1.mp hwinner
    obtain ⟨-, -, hself, hothers, -⟩ :=
      @change_games t g g' id e.blockTime (playMove_progress hwinner hended hplay)
    refine ⟨id, g, g', hid, ?_, hopen, playMove_sender hplay, ?_, playMove_charged (hclocked.ticking id g hg hwinner) hplay,
      fun k' id' g₀ hkey hat => ?_⟩
    · unfold gameAt
      rw [ht]
      exact hg
    · unfold gameAt
      rw [hafter]
      exact hself
    · obtain ⟨t', ht', hg₀⟩ := gameAt_room hat
      unfold gameAt
      by_cases hk : k' = e.message.t
      · obtain rfl : t = t' := Option.some.inj (ht.symm.trans (hk ▸ ht'))
        rw [hk, hafter]
        exact hothers id' g₀ (fun hid' => hkey (by rw [hk, hid'])) hg₀
      · rw [gameAction_lookup (ha ▸ moveAction), if_neg hk, ht']
        exact hg₀

end

/-- After both joins the only game of the duel is on. -/
theorem duel_clock_exact :
    (gameAt (applyAll sampleEnv ∅ duelJoins) (ascii "duel-1") (ascii "1-0")).any
      (fun g => !g.isOver) = true ∧
    ClockExact sampleEnv (applyAll sampleEnv ∅ duelJoins) duelResigned :=
  ⟨by decide +kernel,
    clock_exact ⟨duelJoins, (List.append_nil _).symm.trans duel_sorted, rfl⟩⟩

end KaChatIndexer.ArenaClock
