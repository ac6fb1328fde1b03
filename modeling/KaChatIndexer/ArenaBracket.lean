import KaChatIndexer.ArenaReduce
import KaChatIndexer.Knockout

/-!
# The bracket of a room

What every room of a replay satisfies after every event: an open room waits for players, a started
one is full and its games are a knockout tournament of its seeds. Steps of a game keep it, and so do
the start of a room and the advance of a winner.
-/
namespace KaChatIndexer.ArenaBracket
open ByteStrings ChessPieces ArenaState ArenaReduce FinmapPatch

theorem decimal_injective : Function.Injective decimal := fun a b h => by
  have hparse := parseDigits_decimal a
  rw [h, parseDigits_decimal] at hparse
  exact (Option.some.inj hparse).symm

theorem gameId_inj {r i r' i' : ℕ} : gameId r i = gameId r' i' ↔ r = r' ∧ i = i' := by
  constructor
  · intro h
    have hdigit (n : ℕ) : ∀ c ∈ decimal n, decide (c ≠ 0x2d) = true := by
      intro c hc
      have hc := decimal_digits hc
      rw [decide_eq_true_eq]
      rintro rfl
      exact absurd hc (by decide)
    have hhead (n k : ℕ) : (gameId n k).takeWhile (fun c => decide (c ≠ 0x2d)) = decimal n := by
      unfold gameId
      rw [List.takeWhile_append_of_pos (hdigit n), List.takeWhile_cons_of_neg (by decide),
        List.append_nil]
    have hround : r = r' := decimal_injective (by rw [← hhead r i, h, hhead])
    subst hround
    have htail := List.append_cancel_left h
    exact ⟨rfl, decimal_injective (List.cons.inj htail).2⟩
  · rintro ⟨rfl, rfl⟩
    rfl

def Over (t : Tournament) (r i : ℕ) : Prop := ∃ g, t.game r i = some g ∧ g.isOver = true

/-- The games of a room started at `s`. -/
structure Games (now : ℤ) (s : Int64) (t : Tournament) : Prop where
  keys : ∀ id g, t.games.lookup id = some g → id = gameId g.round g.index ∧ 1 ≤ g.round ∧
    g.round ≤ t.rounds
  first : ∀ i g, t.game 1 i = some g → ∃ pair, (seedPairs t)[i]? = some pair ∧ g.startedAt = s ∧
    t.players[pair.1]? = some g.white ∧ t.players[pair.2]? = some g.black
  pairs : ∀ i, i < (seedPairs t).length → t.game 1 i ≠ none
  feeds : ∀ r i g, 1 ≤ r → t.game (r + 1) i = some g → ∀ a b, t.game r (2 * i) = some a →
    t.game r (2 * i + 1) = some b →
      (a.winner = some g.white ∧ b.winner = some g.black ∨
        a.winner = some g.black ∧ b.winner = some g.white) ∧
      ∃ ea eb, a.endedAt = some ea ∧ b.endedAt = some eb ∧
        g.startedAt.toInt = max ea.toInt eb.toInt
  winner : ∀ id g w, t.games.lookup id = some g → g.winner = some w → w = g.white ∨ w = g.black
  ended : ∀ id g, t.games.lookup id = some g → (g.winner = none ↔ g.endedAt = none) ∧
    ∀ e, g.endedAt = some e → e.toInt ≤ now

/-- The game after two games is there exactly when both are over. -/
def NextExists (t : Tournament) (r i : ℕ) : Prop :=
  t.game (r + 1) i ≠ none ↔ r + 1 ≤ t.rounds ∧ Over t r (2 * i) ∧ Over t r (2 * i + 1)

/-- The bracket of a room started at `s`. -/
structure Running (now : ℤ) (s : Int64) (t : Tournament) : Prop extends Games now s t where
  full : t.players.length = t.capacity
  next : ∀ r i, 1 ≤ r → NextExists t r i

/-- A room after the event at `now`. -/
structure Bracket (now : ℤ) (t : Tournament) : Prop where
  capacity : t.capacity = 2 ∨ t.capacity = 8
  distinct : t.players.Nodup
  seats : t.players.length ≤ t.capacity
  waiting : t.startedAt = none → t.games = ∅ ∧ t.players.length < t.capacity
  running : ∀ s, t.startedAt = some s → Running now s t

/-- What no later event takes back. -/
structure Persists (t t' : Tournament) : Prop where
  started : ∀ s, t.startedAt = some s → t'.startedAt = some s ∧ t'.players = t.players ∧
    t'.capacity = t.capacity
  kept : ∀ id g, t.games.lookup id = some g → g.isOver = true → t'.games.lookup id = some g

theorem Persists.refl (t : Tournament) : Persists t t :=
  ⟨fun _ h => ⟨h, rfl, rfl⟩, fun _ _ h _ => h⟩

theorem Persists.trans {t t' t'' : Tournament} (h : Persists t t') (h' : Persists t' t'') :
    Persists t t'' where
  started s hs := by
    obtain ⟨hs', hplayers, hcapacity⟩ := h.started s hs
    obtain ⟨hs'', hplayers', hcapacity'⟩ := h'.started s hs'
    exact ⟨hs'', hplayers'.trans hplayers, hcapacity'.trans hcapacity⟩
  kept id g hg hover := h'.kept id g (h.kept id g hg hover) hover

section
variable {now now' : ℤ} {s : Int64} {t : Tournament}

theorem Running.mono (h : Running now s t) (hle : now ≤ now') : Running now' s t :=
  { h with
    ended := fun id g hg =>
      ⟨(h.ended id g hg).1, fun e he => ((h.ended id g hg).2 e he).trans hle⟩ }

theorem Bracket.mono (h : Bracket now t) (hle : now ≤ now') : Bracket now' t :=
  { h with running := fun s hs => (h.running s hs).mono hle }

/-- A key of the map is the key of the game under it. -/
theorem Games.key (h : Games now s t) {r i : ℕ} {g : Game} (hg : t.game r i = some g) :
    r = g.round ∧ i = g.index := gameId_inj.mp (h.keys _ g hg).1

end

/-- What one accepted event does to a game: only a clock, the board or the result changes. -/
structure Progress (time : Int64) (g g' : Game) : Prop where
  round : g'.round = g.round
  index : g'.index = g.index
  white : g'.white = g.white
  black : g'.black = g.black
  startedAt : g'.startedAt = g.startedAt
  result : g'.winner = none ∧ g'.endedAt = none ∨
    ∃ w, g'.winner = some w ∧ (w = g.white ∨ w = g.black) ∧ g'.endedAt = some time

section
variable {g g' : Game} {e : ArenaEvent} {time : Int64}

theorem spend_same (c : Color) (ms : Int64) : (g.spend c ms).round = g.round ∧
    (g.spend c ms).index = g.index ∧ (g.spend c ms).white = g.white ∧
    (g.spend c ms).black = g.black ∧ (g.spend c ms).startedAt = g.startedAt ∧
    (g.spend c ms).winner = g.winner ∧ (g.spend c ms).endedAt = g.endedAt := by
  unfold Game.spend
  split <;> exact ⟨rfl, rfl, rfl, rfl, rfl, rfl, rfl⟩

theorem exhaust_same (c : Color) : (g.exhaust c).round = g.round ∧ (g.exhaust c).index = g.index ∧
    (g.exhaust c).white = g.white ∧ (g.exhaust c).black = g.black ∧
    (g.exhaust c).startedAt = g.startedAt := by
  unfold Game.exhaust
  split <;> exact ⟨rfl, rfl, rfl, rfl, rfl⟩

theorem progress_finish (h : Progress time g g') {w : Bytes} {o : Outcome}
    (hw : w = g.white ∨ w = g.black) : Progress time g (finish g' w o time) :=
  ⟨h.round, h.index, h.white, h.black, h.startedAt, .inr ⟨w, rfl, hw, rfl⟩⟩

theorem progress_finishDraw (h : Progress time g g') : Progress time g (finishDraw g' time) := by
  refine progress_finish h ?_
  split
  · exact .inl h.white
  · exact .inr h.black

theorem addressOf_player (c : Color) : g.addressOf c = g.white ∨ g.addressOf c = g.black := by
  unfold Game.addressOf
  split
  · exact .inl rfl
  · exact .inr rfl

theorem progress_verdict {c : Color} (h : Progress time g g') :
    Progress time g (verdict c time g') := by
  unfold verdict
  split_ifs
  · refine progress_finish h ?_
    rcases @addressOf_player g' c with hw | hw
    · exact .inl (hw.trans h.white)
    · exact .inr (hw.trans h.black)
  · exact progress_finishDraw h
  · exact progress_finishDraw h
  · exact progress_finishDraw h
  · exact progress_finishDraw h
  · exact h

theorem progress_moved {mv : Move} (hmv : mv ∈ g.board.moves) (elapsed : Int64)
    (hwinner : g.winner = none) (hended : g.endedAt = none) :
    Progress time g (moved g mv hmv elapsed time) := by
  obtain ⟨hround, hindex, hwhite, hblack, hstarted, hwin, hend⟩ :=
    @spend_same g g.sideToMove elapsed
  exact ⟨hround, hindex, hwhite, hblack, hstarted, .inl ⟨hwin.trans hwinner, hend.trans hended⟩⟩

theorem playMove_progress (hwinner : g.winner = none) (hended : g.endedAt = none)
    (h : playMove e g = some g') : Progress e.blockTime g g' := by
  unfold playMove at h
  split_ifs at h
  split at h
  · dsimp only at h
    split_ifs at h
    cases h
    exact progress_verdict (progress_moved _ _ hwinner hended)
  · cases h

theorem resignGame_progress (h : resignGame e g = some g') : Progress e.blockTime g g' := by
  obtain ⟨c, -, rfl⟩ := Option.map_eq_some_iff.mp h
  exact ⟨rfl, rfl, rfl, rfl, rfl, .inr ⟨_, rfl, addressOf_player _, rfl⟩⟩

theorem colorOf_player {a : Bytes} {c : Color} (h : g.colorOf a = some c) :
    a = g.white ∨ a = g.black := by
  unfold Game.colorOf at h
  split_ifs at h with hw hb
  · exact .inl hw
  · exact .inr hb

theorem claimGame_progress (h : claimGame e g = some g') : Progress e.blockTime g g' := by
  unfold claimGame at h
  split at h
  · cases h
  · next c hc =>
    dsimp only at h
    split_ifs at h
    cases h
    obtain ⟨hround, hindex, hwhite, hblack, hstarted⟩ := @exhaust_same g g.sideToMove
    exact ⟨hround, hindex, hwhite, hblack, hstarted, .inr ⟨_, rfl, colorOf_player hc, rfl⟩⟩

end

section
variable {now : ℤ} {s time : Int64} {t : Tournament} {g g' : Game} {id : Bytes}

/-- The room with a game replaced. -/
def withGame (t : Tournament) (id : Bytes) (g : Game) : Tournament :=
  { t with games := t.games.insert id g }

theorem withGame_lookup (id' : Bytes) :
    (withGame t id g').games.lookup id' = if id' = id then some g' else t.games.lookup id' :=
  lookup_insert_of ..

theorem withGame_game (h : Games now s t) (hg : t.games.lookup id = some g) (r i : ℕ) :
    (withGame t id g').game r i = if r = g.round ∧ i = g.index then some g' else t.game r i := by
  have hkey : gameId r i = id ↔ r = g.round ∧ i = g.index := by
    rw [(h.keys id g hg).1]
    exact gameId_inj
  unfold Tournament.game
  rw [withGame_lookup]
  exact if_congr hkey rfl rfl

theorem withGame_over (h : Games now s t) (hg : t.games.lookup id = some g) {r i : ℕ}
    (hne : ¬ (r = g.round ∧ i = g.index)) : Over (withGame t id g') r i ↔ Over t r i := by
  unfold Over
  rw [withGame_game h hg, if_neg hne]

theorem Games.self (h : Games now s t) (hg : t.games.lookup id = some g) :
    t.game g.round g.index = some g := by
  unfold Tournament.game
  rw [← (h.keys id g hg).1]
  exact hg

theorem Games.not_over (h : Games now s t) (hg : t.games.lookup id = some g)
    (hopen : g.winner = none) : ¬ Over t g.round g.index := by
  rintro ⟨g₀, hg₀, hover⟩
  rw [h.self hg, Option.some.injEq] at hg₀
  rw [← hg₀, Game.isOver, hopen] at hover
  cases hover

/-- A game is one of the two that feed its next game. -/
theorem over_of_feeders {r i : ℕ} (ha : Over t r (2 * (i / 2))) (hb : Over t r (2 * (i / 2) + 1)) :
    Over t r i := by
  rcases Nat.mod_two_eq_zero_or_one i with hmod | hmod
  · rwa [show 2 * (i / 2) = i by omega] at ha
  · rwa [show 2 * (i / 2) + 1 = i by omega] at hb

/-- A step of an unfinished game keeps what holds of the games. -/
theorem games_progress (h : Running now s t) (hnow : now ≤ time.toInt)
    (hg : t.games.lookup id = some g) (hopen : g.winner = none) (hp : Progress time g g') :
    Games time.toInt s (withGame t id g') := by
  have hgame := @withGame_game now s t g g' id h.toGames hg
  have hkey := h.keys id g hg
  have hself := h.self hg
  have hnotover (r i : ℕ) (hover : Over t r i) : ¬ (r = g.round ∧ i = g.index) := by
    rintro ⟨rfl, rfl⟩
    exact h.not_over hg hopen hover
  have hcases {id' : Bytes} {g₀ : Game} (hlookup : (withGame t id g').games.lookup id' = some g₀) :
      id' = id ∧ g₀ = g' ∨ t.games.lookup id' = some g₀ := by
    rw [withGame_lookup] at hlookup
    split_ifs at hlookup with hid
    · exact .inl ⟨hid, (Option.some.inj hlookup).symm⟩
    · exact .inr hlookup
  -- the game that a feeder change would matter to does not exist yet
  have hfeeder {r i j : ℕ} {g₀ : Game} (hr : 1 ≤ r) (hg₀ : t.game (r + 1) i = some g₀)
      (hj : j = 2 * i ∨ j = 2 * i + 1) : ¬ (r = g.round ∧ j = g.index) := by
    obtain ⟨-, ha, hb⟩ := (h.next r i hr).mp (by rw [hg₀]; simp)
    rcases hj with rfl | rfl
    · exact hnotover _ _ ha
    · exact hnotover _ _ hb
  refine ⟨fun id' g₀ hlookup => ?_, fun i g₀ hg₀ => ?_, fun i hi => ?_, fun r i g₀ hr hg₀ a b ha hb => ?_,
    fun id' g₀ w hlookup hw => ?_, fun id' g₀ hlookup => ?_⟩
  · rcases hcases hlookup with ⟨rfl, rfl⟩ | hlookup
    · rw [hp.round, hp.index]
      exact hkey
    · exact h.keys id' g₀ hlookup
  · rw [hgame] at hg₀
    split_ifs at hg₀ with heq
    · obtain ⟨hr, hi⟩ := heq
      have hfirst := h.first i g (by rw [hr, hi]; exact hself)
      rw [← Option.some.inj hg₀, hp.white, hp.black, hp.startedAt]
      exact hfirst
    · exact h.first i g₀ hg₀
  · rw [hgame]
    split_ifs
    · simp
    · exact h.pairs i hi
  · rw [hgame] at hg₀
    obtain ⟨g₁, hg₁, hwhite, hblack, hstarted⟩ : ∃ g₁, t.game (r + 1) i = some g₁ ∧
        g₁.white = g₀.white ∧ g₁.black = g₀.black ∧ g₁.startedAt = g₀.startedAt := by
      split_ifs at hg₀ with heq
      · rw [heq.1, heq.2, ← Option.some.inj hg₀]
        exact ⟨g, hself, hp.white.symm, hp.black.symm, hp.startedAt.symm⟩
      · exact ⟨g₀, hg₀, rfl, rfl, rfl⟩
    rw [hgame, if_neg (hfeeder hr hg₁ (.inl rfl))] at ha
    rw [hgame, if_neg (hfeeder hr hg₁ (.inr rfl))] at hb
    have hfeeds := h.feeds r i g₁ hr hg₁ a b ha hb
    rwa [hwhite, hblack, hstarted] at hfeeds
  · rcases hcases hlookup with ⟨rfl, rfl⟩ | hlookup
    · rw [hp.white, hp.black]
      rcases hp.result with ⟨hnone, -⟩ | ⟨w', hw', hplayer, -⟩
      · rw [hnone] at hw
        cases hw
      · rw [hw', Option.some.injEq] at hw
        exact hw ▸ hplayer
    · exact h.winner id' g₀ w hlookup hw
  · rcases hcases hlookup with ⟨rfl, rfl⟩ | hlookup
    · rcases hp.result with ⟨hwinner, hended⟩ | ⟨w, hwinner, -, hended⟩
      · rw [hwinner, hended]
        exact ⟨by simp, by simp⟩
      · rw [hwinner, hended]
        refine ⟨by simp, fun e he => ?_⟩
        rw [Option.some.inj he]
    · obtain ⟨hiff, hle⟩ := h.ended id' g₀ hlookup
      exact ⟨hiff, fun e he => (hle e he).trans hnow⟩

/-- Away from the game that the changed one feeds, the next games are as before. -/
theorem next_progress (h : Running now s t) (hg : t.games.lookup id = some g) {r i : ℕ} (hr : 1 ≤ r)
    (hne : ¬ (r = g.round ∧ i = g.index / 2)) : NextExists (withGame t id g') r i := by
  have hself := h.self hg
  have hexists : (withGame t id g').game (r + 1) i ≠ none ↔ t.game (r + 1) i ≠ none := by
    rw [withGame_game h.toGames hg]
    split_ifs with heq
    · rw [heq.1, heq.2, hself]
      simp
    · exact Iff.rfl
  have hover {j : ℕ} (hj : j = 2 * i ∨ j = 2 * i + 1) :
      Over (withGame t id g') r j ↔ Over t r j :=
    withGame_over h.toGames hg fun heq => hne ⟨heq.1, by omega⟩
  unfold NextExists
  rw [hexists, hover (.inl rfl), hover (.inr rfl)]
  exact h.next r i hr

theorem two_orders (aIsWhite : Bool) (a b : Bytes) :
    a = (if aIsWhite then a else b) ∧ b = (if aIsWhite then b else a) ∨
      a = (if aIsWhite then b else a) ∧ b = (if aIsWhite then a else b) := by
  cases aIsWhite
  · exact .inr ⟨rfl, rfl⟩
  · exact .inl ⟨rfl, rfl⟩

/-- What the end of a game does: the next game starts, or there is none to start. -/
theorem advance_cases {ended : Int64} (hg : t.games.lookup id = some g)
    (hended : g.endedAt = some ended) :
    (∃ a b white black whites, g.round < t.rounds ∧ t.game (g.round + 1) (g.index / 2) = none ∧
      (t.game g.round (2 * (g.index / 2))).bind Game.winner = some a ∧
      (t.game g.round (2 * (g.index / 2) + 1)).bind Game.winner = some b ∧
      (a = white ∧ b = black ∨ a = black ∧ b = white) ∧
      advanceAfter t id = { t with
        games := t.games.insert (gameId (g.round + 1) (g.index / 2))
          (makeGame (g.round + 1) (g.index / 2) white black ended)
        whiteCount := whites }) ∨
    advanceAfter t id = t ∧ (g.round < t.rounds →
      t.game (g.round + 1) (g.index / 2) ≠ none ∨
      (t.game g.round (2 * (g.index / 2))).bind Game.winner = none ∨
      (t.game g.round (2 * (g.index / 2) + 1)).bind Game.winner = none) := by
  unfold advanceAfter
  rw [hg]
  dsimp only
  rw [hended]
  dsimp only
  rw [Nat.mul_comm (g.index / 2) 2]
  by_cases hround : g.round < t.rounds
  · rw [if_pos hround]
    cases ha : (t.game g.round (2 * (g.index / 2))).bind Game.winner with
    | none => exact .inr ⟨rfl, fun _ => .inr (.inl rfl)⟩
    | some a =>
      cases hb : (t.game g.round (2 * (g.index / 2) + 1)).bind Game.winner with
      | none => exact .inr ⟨rfl, fun _ => .inr (.inr rfl)⟩
      | some b =>
        dsimp only
        cases hnext : t.game (g.round + 1) (g.index / 2) with
        | some g₀ => exact .inr ⟨if_pos rfl, fun _ => .inl (by simp)⟩
        | none =>
          rw [if_neg (by simp)]
          exact .inl ⟨a, b, _, _, _, hround, rfl, rfl, rfl, two_orders _ a b, rfl⟩
  · rw [if_neg hround]
    exact .inr ⟨rfl, fun h => absurd h hround⟩

theorem over_iff_winner {r i : ℕ} : Over t r i ↔ (t.game r i).bind Game.winner ≠ none := by
  unfold Over
  cases t.game r i with
  | none => simp
  | some g => simp [Game.isOver, Option.isSome_iff_ne_none]

/-- The room after the winners of two games got their game. -/
def withNext (t : Tournament) (g : Game) (white black : Bytes) (ended : Int64)
    (whites : Finmap fun _ : Bytes => ℕ) : Tournament :=
  { t with
    games := t.games.insert (gameId (g.round + 1) (g.index / 2))
      (makeGame (g.round + 1) (g.index / 2) white black ended)
    whiteCount := whites }

section
variable {white black : Bytes} {ended : Int64} {whites : Finmap fun _ : Bytes => ℕ}

theorem withNext_lookup (id' : Bytes) : (withNext t g white black ended whites).games.lookup id' =
    if id' = gameId (g.round + 1) (g.index / 2) then
      some (makeGame (g.round + 1) (g.index / 2) white black ended)
    else t.games.lookup id' := lookup_insert_of ..

theorem withNext_game (r i : ℕ) : (withNext t g white black ended whites).game r i =
    if r = g.round + 1 ∧ i = g.index / 2 then
      some (makeGame (g.round + 1) (g.index / 2) white black ended)
    else t.game r i := by
  unfold Tournament.game
  rw [withNext_lookup]
  exact if_congr gameId_inj rfl rfl

/-- A new game has no winner. -/
theorem withNext_winner (hnone : t.game (g.round + 1) (g.index / 2) = none) (r i : ℕ) :
    ((withNext t g white black ended whites).game r i).bind Game.winner =
      (t.game r i).bind Game.winner := by
  rw [withNext_game]
  split_ifs with heq
  · rw [heq.1, heq.2, hnone]
    rfl
  · rfl

theorem withNext_over (hnone : t.game (g.round + 1) (g.index / 2) = none) (r i : ℕ) :
    Over (withNext t g white black ended whites) r i ↔ Over t r i := by
  rw [over_iff_winner, over_iff_winner, withNext_winner hnone]

/-- A game that is over is not the new one. -/
theorem over_not_next (hnone : t.game (g.round + 1) (g.index / 2) = none) {r i : ℕ}
    (hover : Over t r i) : ¬ (r = g.round + 1 ∧ i = g.index / 2) := by
  rintro ⟨rfl, rfl⟩
  obtain ⟨g₀, hg₀, -⟩ := hover
  rw [hnone] at hg₀
  cases hg₀

theorem games_next (h : Games now s t) (hg : t.games.lookup id = some g)
    (hended : g.endedAt = some ended) (hnow : ended.toInt = now) (hround : g.round < t.rounds)
    (hnone : t.game (g.round + 1) (g.index / 2) = none)
    (hrest : ∀ r i, 1 ≤ r → t.game (r + 1) i ≠ none → Over t r (2 * i) ∧ Over t r (2 * i + 1))
    (hplayers : (t.game g.round (2 * (g.index / 2))).bind Game.winner = some white ∧
        (t.game g.round (2 * (g.index / 2) + 1)).bind Game.winner = some black ∨
      (t.game g.round (2 * (g.index / 2))).bind Game.winner = some black ∧
        (t.game g.round (2 * (g.index / 2) + 1)).bind Game.winner = some white) :
    Games now s (withNext t g white black ended whites) := by
  obtain ⟨hid, hpos, -⟩ := h.keys id g hg
  have hself := h.self hg
  have hcases {id' : Bytes} {g₀ : Game}
      (hlookup : (withNext t g white black ended whites).games.lookup id' = some g₀) :
      id' = gameId (g.round + 1) (g.index / 2) ∧
          g₀ = makeGame (g.round + 1) (g.index / 2) white black ended ∨
        t.games.lookup id' = some g₀ := by
    rw [withNext_lookup] at hlookup
    split_ifs at hlookup with heq
    · exact .inl ⟨heq, (Option.some.inj hlookup).symm⟩
    · exact .inr hlookup
  refine ⟨fun id' g₀ hlookup => ?_, fun i g₀ hg₀ => ?_, fun i hi => ?_, fun r i g₀ hr hg₀ a b ha hb => ?_,
    fun id' g₀ w hlookup hw => ?_, fun id' g₀ hlookup => ?_⟩
  · rcases hcases hlookup with ⟨rfl, rfl⟩ | hlookup
    · exact ⟨rfl, Nat.le_add_left 1 g.round, hround⟩
    · exact h.keys id' g₀ hlookup
  · rw [withNext_game, if_neg (by omega)] at hg₀
    exact h.first i g₀ hg₀
  · rw [withNext_game, if_neg (by omega)]
    exact h.pairs i hi
  · rw [withNext_game] at hg₀
    split_ifs at hg₀ with heq
    · -- the new game: one feeder is the game that ended now, the other one ended before
      obtain ⟨hr', rfl⟩ := heq
      obtain rfl : r = g.round := by omega
      obtain rfl := Option.some.inj hg₀
      rw [withNext_game, if_neg (by omega)] at ha hb
      rw [ha, hb] at hplayers
      refine ⟨hplayers, ?_⟩
      have hend {j : ℕ} {c : Game} {w : Bytes} (hc : t.game g.round j = some c)
          (hw : c.winner = some w) : ∃ e, c.endedAt = some e ∧ e.toInt ≤ now := by
        obtain ⟨hiff, hle⟩ := h.ended _ c hc
        cases he : c.endedAt with
        | none =>
          rw [hiff.mpr he] at hw
          cases hw
        | some e => exact ⟨e, rfl, hle e he⟩
      have hwins : ∃ wa wb, a.winner = some wa ∧ b.winner = some wb := by
        rcases hplayers with ⟨hwa, hwb⟩ | ⟨hwa, hwb⟩
        · exact ⟨white, black, hwa, hwb⟩
        · exact ⟨black, white, hwa, hwb⟩
      obtain ⟨wa, wb, hwa, hwb⟩ := hwins
      obtain ⟨ea, hea, hlea⟩ := hend ha hwa
      obtain ⟨eb, heb, hleb⟩ := hend hb hwb
      refine ⟨ea, eb, hea, heb, ?_⟩
      have hone : g = a ∨ g = b := by
        rcases Nat.mod_two_eq_zero_or_one g.index with hmod | hmod
        · rw [show 2 * (g.index / 2) = g.index by omega, hself, Option.some.injEq] at ha
          exact .inl ha
        · rw [show 2 * (g.index / 2) + 1 = g.index by omega, hself, Option.some.injEq] at hb
          exact .inr hb
      change ended.toInt = max ea.toInt eb.toInt
      rcases hone with rfl | rfl
      · obtain rfl : ended = ea := Option.some.inj (hended.symm.trans hea)
        omega
      · obtain rfl : ended = eb := Option.some.inj (hended.symm.trans heb)
        omega
    · have hfeeders := hrest r i hr (by rw [hg₀]; simp)
      rw [withNext_game, if_neg (over_not_next hnone hfeeders.1)] at ha
      rw [withNext_game, if_neg (over_not_next hnone hfeeders.2)] at hb
      exact h.feeds r i g₀ hr hg₀ a b ha hb
  · rcases hcases hlookup with ⟨rfl, rfl⟩ | hlookup
    · cases hw
    · exact h.winner id' g₀ w hlookup hw
  · rcases hcases hlookup with ⟨rfl, rfl⟩ | hlookup
    · exact ⟨⟨fun _ => rfl, fun _ => rfl⟩, fun e he => by cases he⟩
    · exact h.ended id' g₀ hlookup

end

/-- The end of a game keeps the bracket: only the game that it feeds may be missing before. -/
theorem running_advance {ended : Int64} (h : Games now s t) (hfull : t.players.length = t.capacity)
    (hg : t.games.lookup id = some g) (hended : g.endedAt = some ended) (hnow : ended.toInt = now)
    (hnone : t.game (g.round + 1) (g.index / 2) = none)
    (hrest : ∀ r i, 1 ≤ r → ¬ (r = g.round ∧ i = g.index / 2) → NextExists t r i) :
    Running now s (advanceAfter t id) ∧ Persists t (advanceAfter t id) := by
  have hfed (r i : ℕ) (hr : 1 ≤ r) (hexists : t.game (r + 1) i ≠ none) :
      Over t r (2 * i) ∧ Over t r (2 * i + 1) := by
    refine ((hrest r i hr ?_).mp hexists).2
    rintro ⟨rfl, rfl⟩
    exact hexists hnone
  rcases advance_cases hg hended with
    ⟨a, b, white, black, whites, hround, -, ha, hb, horder, heq⟩ | ⟨heq, hstop⟩
  · rw [heq]
    have hplayers : (t.game g.round (2 * (g.index / 2))).bind Game.winner = some white ∧
          (t.game g.round (2 * (g.index / 2) + 1)).bind Game.winner = some black ∨
        (t.game g.round (2 * (g.index / 2))).bind Game.winner = some black ∧
          (t.game g.round (2 * (g.index / 2) + 1)).bind Game.winner = some white := by
      rcases horder with ⟨rfl, rfl⟩ | ⟨rfl, rfl⟩
      · exact .inl ⟨ha, hb⟩
      · exact .inr ⟨ha, hb⟩
    refine ⟨⟨games_next h hg hended hnow hround hnone hfed hplayers, hfull, fun r i hr => ?_⟩,
      fun s hs => ⟨hs, rfl, rfl⟩, fun id' g₀ hlookup _ => ?_⟩
    · change NextExists (withNext t g white black ended whites) r i
      unfold NextExists
      rw [withNext_over hnone, withNext_over hnone, withNext_game]
      by_cases hhole : r = g.round ∧ i = g.index / 2
      · obtain ⟨rfl, rfl⟩ := hhole
        rw [if_pos ⟨rfl, rfl⟩, over_iff_winner, over_iff_winner, ha, hb]
        simp only [ne_eq, reduceCtorEq, not_false_eq_true, true_iff, and_true]
        exact hround
      · rw [if_neg (by omega)]
        exact hrest r i hr hhole
    · change (withNext t g white black ended whites).games.lookup id' = some g₀
      rw [withNext_lookup, if_neg]
      · exact hlookup
      · rintro rfl
        rw [show t.games.lookup _ = none from hnone] at hlookup
        cases hlookup
  · rw [heq]
    refine ⟨⟨h, hfull, fun r i hr => ?_⟩, Persists.refl t⟩
    by_cases hhole : r = g.round ∧ i = g.index / 2
    · obtain ⟨rfl, rfl⟩ := hhole
      unfold NextExists
      rw [hnone, over_iff_winner, over_iff_winner]
      refine ⟨fun hne => absurd rfl hne, fun ⟨hround, ha, hb⟩ => ?_⟩
      rcases hstop hround with hn | hn | hn
      · exact absurd hnone hn
      · exact absurd hn ha
      · exact absurd hn hb
    · exact hrest r i hr hhole

/-- A step of an unfinished game keeps the bracket. -/
theorem running_progress (h : Running now s t) (hnow : now ≤ time.toInt)
    (hg : t.games.lookup id = some g) (hopen : g.winner = none) (hp : Progress time g g') :
    let t' := if g'.isOver then advanceAfter (withGame t id g') id else withGame t id g'
    Running time.toInt s t' ∧ Persists t t' := by
  have hgames := games_progress h hnow hg hopen hp
  have hnone : t.game (g.round + 1) (g.index / 2) = none := by
    by_contra hexists
    obtain ⟨hid, hpos, -⟩ := h.keys id g hg
    obtain ⟨-, ha, hb⟩ := (h.next g.round (g.index / 2) hpos).mp hexists
    exact h.not_over hg hopen (over_of_feeders ha hb)
  have hnone' : (withGame t id g').game (g.round + 1) (g.index / 2) = none := by
    rw [withGame_game h.toGames hg, if_neg (by omega)]
    exact hnone
  have hpersists : Persists t (withGame t id g') := by
    refine ⟨fun s hs => ⟨hs, rfl, rfl⟩, fun id' g₀ hlookup hover => ?_⟩
    rw [withGame_lookup, if_neg]
    · exact hlookup
    · rintro rfl
      rw [hg, Option.some.injEq] at hlookup
      rw [← hlookup, Game.isOver, hopen] at hover
      cases hover
  have hrest (r i : ℕ) (hr : 1 ≤ r) (hne : ¬ (r = g.round ∧ i = g.index / 2)) :
      NextExists (withGame t id g') r i := next_progress h hg hr hne
  have hself : (withGame t id g').games.lookup id = some g' := by
    rw [withGame_lookup, if_pos rfl]
  dsimp only
  rcases hp.result with ⟨hwinner, -⟩ | ⟨w, hwinner, -, hended⟩
  · rw [if_neg (by simp [Game.isOver, hwinner])]
    refine ⟨⟨hgames, h.full, fun r i hr => ?_⟩, hpersists⟩
    by_cases hhole : r = g.round ∧ i = g.index / 2
    · -- the changed game is still not over
      obtain ⟨rfl, rfl⟩ := hhole
      unfold NextExists
      rw [hnone']
      refine ⟨fun hne => absurd rfl hne, fun ⟨_, ha, hb⟩ => ?_⟩
      have hover := over_of_feeders ha hb
      rw [over_iff_winner, withGame_game h.toGames hg, if_pos ⟨rfl, rfl⟩] at hover
      exact absurd hwinner hover
    · exact hrest r i hr hhole
  · rw [if_pos (by simp [Game.isOver, hwinner])]
    rw [← hp.round, ← hp.index] at hnone' hrest
    obtain ⟨hrunning, hkept⟩ := running_advance hgames h.full hself hended rfl hnone' hrest
    exact ⟨hrunning, hpersists.trans hkept⟩

end

end KaChatIndexer.ArenaBracket
