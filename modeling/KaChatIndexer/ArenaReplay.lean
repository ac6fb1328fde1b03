import KaChatIndexer.ArenaRooms

/-!
# Brackets under every replay

The games of a started room are a knockout tournament of its seeds, so nobody has two unfinished
games in it. After every event of a replay in chain order each room has its bracket in order, and the
events that follow take nothing back.
-/
namespace KaChatIndexer.ArenaReplay
open ByteStrings ArenaState ArenaReduce ArenaBracket ArenaRooms KeyedReplay

section
variable (t : Tournament)

/-- The seed, by its place in the pairs of round 1. -/
def pairSeed (j : ℕ) : Option ℕ :=
  (seedPairs t)[j / 2]?.map fun pair => if j % 2 = 0 then pair.1 else pair.2

def seatOf (j : ℕ) : Option Bytes := (pairSeed t j).bind fun seed => t.players[seed]?

def draw : Knockout.Draw Bytes := fun r i =>
  (t.game r i).map fun g => ⟨g.white, g.black, g.winner⟩

end

section
variable {t : Tournament}

theorem pairSeed_inj (hcapacity : t.capacity = 2 ∨ t.capacity = 8) {i j seed : ℕ}
    (hi : pairSeed t i = some seed) (hj : pairSeed t j = some seed) : i = j := by
  have hbound {k : ℕ} (hk : pairSeed t k = some seed) : k / 2 < (seedPairs t).length := by
    obtain ⟨pair, hpair, -⟩ := Option.map_eq_some_iff.mp hk
    exact (List.getElem?_eq_some_iff.mp hpair).1
  have hlength : (seedPairs t).length ≤ 4 := by
    unfold seedPairs
    split <;> decide
  have hall : ∀ a < 8, ∀ b < 8, pairSeed t a = pairSeed t b → pairSeed t a ≠ none → a = b := by
    unfold pairSeed seedPairs Tournament.isDuel
    rcases hcapacity with h | h <;> rw [h] <;> decide
  have hi' := hbound hi
  have hj' := hbound hj
  exact hall i (by omega) j (by omega) (hi.trans hj.symm) (by rw [hi]; simp)

variable {now : ℤ} {s : Int64}

theorem draw_eq {r i : ℕ} {m : Knockout.Match Bytes} (hm : draw t r i = some m) :
    ∃ g, t.game r i = some g ∧ m = ⟨g.white, g.black, g.winner⟩ := by
  obtain ⟨g, hg, heq⟩ := Option.map_eq_some_iff.mp hm
  exact ⟨g, hg, heq.symm⟩

theorem running_drawn (h : Running now s t) {id : Bytes} {g : Game}
    (hg : t.games.lookup id = some g) :
    draw t g.round g.index = some ⟨g.white, g.black, g.winner⟩ := by
  unfold draw
  rw [h.self hg]
  rfl

theorem draw_winner (r i : ℕ) :
    (draw t r i).bind Knockout.Match.winner = (t.game r i).bind Game.winner := by
  unfold draw
  cases t.game r i <;> rfl

/-- The games of a started room are a knockout tournament of its seeds. -/
theorem running_played (hcapacity : t.capacity = 2 ∨ t.capacity = 8) (hdistinct : t.players.Nodup)
    (h : Running now s t) : Knockout.Played t.rounds (seatOf t) (draw t) where
  seated i j p hi hj := by
    obtain ⟨seed, hseed, hp⟩ := Option.bind_eq_some_iff.mp hi
    obtain ⟨seed', hseed', hp'⟩ := Option.bind_eq_some_iff.mp hj
    obtain ⟨hlt, hget⟩ := List.getElem?_eq_some_iff.mp hp
    obtain ⟨hlt', hget'⟩ := List.getElem?_eq_some_iff.mp hp'
    obtain rfl : seed = seed' := (hdistinct.getElem_inj_iff).mp (hget.trans hget'.symm)
    exact pairSeed_inj hcapacity hseed hseed'
  rounds r i m hm := by
    obtain ⟨g, hg, -⟩ := draw_eq hm
    obtain ⟨hid, hpos, hle⟩ := h.keys _ g hg
    rw [(gameId_inj.mp hid).1]
    exact ⟨hpos, hle⟩
  first i m hm := by
    obtain ⟨g, hg, rfl⟩ := draw_eq hm
    obtain ⟨pair, hpair, -, hwhite, hblack⟩ := h.first i g hg
    unfold seatOf pairSeed
    rw [show 2 * i / 2 = i by omega, show (2 * i + 1) / 2 = i by omega, hpair,
      show 2 * i % 2 = 0 by omega, show (2 * i + 1) % 2 = 1 by omega]
    exact ⟨hwhite, hblack⟩
  next r i m hm hr := by
    obtain ⟨g, hg, rfl⟩ := draw_eq hm
    obtain ⟨-, ⟨a, ha, -⟩, ⟨b, hb, -⟩⟩ := (h.next r i hr).mp (by rw [hg]; simp)
    obtain ⟨hplayers, -⟩ := h.feeds r i g hr hg a b ha hb
    rw [draw_winner, draw_winner, ha, hb]
    rcases hplayers with ⟨hwa, hwb⟩ | ⟨hwa, hwb⟩
    · exact ⟨g.white, g.black, hwa, hwb, .inl ⟨rfl, rfl⟩⟩
    · exact ⟨g.black, g.white, hwa, hwb, .inr ⟨rfl, rfl⟩⟩
  winner r i m p hm hp := by
    obtain ⟨g, hg, rfl⟩ := draw_eq hm
    exact h.winner _ g p hg hp

theorem seatOf_lt (hcapacity : t.capacity = 2 ∨ t.capacity = 8) (j : ℕ) (p : Bytes)
    (h : seatOf t j = some p) : j < 2 ^ t.rounds := by
  obtain ⟨seed, hseed, -⟩ := Option.bind_eq_some_iff.mp h
  obtain ⟨pair, hpair, -⟩ := Option.map_eq_some_iff.mp hseed
  have hlt := (List.getElem?_eq_some_iff.mp hpair).1
  have hlength : 2 * (seedPairs t).length = 2 ^ t.rounds := by
    unfold seedPairs Tournament.rounds Tournament.isDuel
    rcases hcapacity with h | h <;> rw [h] <;> decide
  omega

theorem draw_over {r i : ℕ} : Knockout.Over (draw t) r i ↔ Over t r i := by
  unfold Knockout.Over
  rw [draw_winner, over_iff_winner, Option.ne_none_iff_exists']

/-- A room with an unfinished game is not finished. -/
theorem unfinished_room (hcapacity : t.capacity = 2 ∨ t.capacity = 8) (hdistinct : t.players.Nodup)
    (h : Running now s t) {id : Bytes} {g : Game} (hg : t.games.lookup id = some g)
    (hopen : g.winner = none) : t.isFinished = false := by
  cases hfinished : t.isFinished with
  | false => rfl
  | true =>
    have hfinal : Over t t.rounds 0 := by
      obtain ⟨f, hf, hover⟩ := (Option.any_eq_true _ _).mp hfinished
      exact ⟨f, hf, hover⟩
    have hover := (running_played hcapacity hdistinct h).final_over (seatOf_lt hcapacity)
      (draw_over.mpr hfinal) (running_drawn h hg)
    exact absurd (draw_over.mp hover) (h.not_over hg hopen)

/-- A player of a game. -/
def Plays (g : Game) (p : Bytes) : Prop := p = g.white ∨ p = g.black

/-- Nobody has two unfinished games. -/
theorem unfinished_unique (hcapacity : t.capacity = 2 ∨ t.capacity = 8)
    (hdistinct : t.players.Nodup) (h : Running now s t) {id id' : Bytes} {g g' : Game}
    (hg : t.games.lookup id = some g) (hg' : t.games.lookup id' = some g') (hopen : g.winner = none)
    (hopen' : g'.winner = none) {p : Bytes} (hp : Plays g p) (hp' : Plays g' p) : id = id' := by
  obtain ⟨hround, hindex⟩ := (running_played hcapacity hdistinct h).stop_unique (running_drawn h hg)
    (running_drawn h hg') hp hp' (by rw [hopen]; simp) (by rw [hopen']; simp)
  rw [(h.keys id g hg).1, (h.keys id' g' hg').1, hround, hindex]

end

theorem chainOrder_pairwise (events : List ArenaEvent) :
    (chainOrder events).Pairwise fun a b => chainKey a ≤ chainKey b := by
  have hpair := @List.pairwise_mergeSort _ (fun a b => decide (chainKey a ≤ chainKey b))
    (by simpa using fun _ _ _ => le_trans) (by simpa using fun _ _ => le_total _ _) events
  exact hpair.imp fun h => of_decide_eq_true h

/-- Chain order is an order of block times. -/
theorem chainOrder_sorted (events : List ArenaEvent) :
    (chainOrder events).Pairwise fun a b => a.blockTime.toInt ≤ b.blockTime.toInt := by
  refine (chainOrder_pairwise events).imp fun {a b} h => ?_
  rcases (Prod.Lex.le_iff.mp h) with h | ⟨h, -⟩
  · exact le_of_lt h
  · exact le_of_eq h

/-- After every event each room has its bracket in order, and later events take nothing back. -/
theorem replay_bracket (env : ArenaEnv) (events : List ArenaEvent) {before after later : List ArenaEvent}
    (h : before ++ after ++ later = chainOrder events) {k : Bytes} {t : Tournament}
    (ht : (applyAll env ∅ before).lookup k = some t) :
    (∀ now, (∀ e ∈ before, e.blockTime.toInt ≤ now) → Bracket now t) ∧
    (∀ id id' g g' p, t.games.lookup id = some g → t.games.lookup id' = some g' →
      g.isOver = false → g'.isOver = false → Plays g p → Plays g' p → id = id') ∧
    ∃ t', (applyAll env ∅ (before ++ after)).lookup k = some t' ∧ Persists t t' := by
  have hsorted := chainOrder_sorted events
  rw [← h] at hsorted
  have hrun := (List.pairwise_append.mp hsorted).1
  have hbracket (now : ℤ) (hnow : ∀ e ∈ before, e.blockTime.toInt ≤ now) : Bracket now t :=
    (applyEvent_keyed env).invariant (bracket_preserved env) (List.pairwise_append.mp hrun).1 hnow ht
  refine ⟨hbracket, fun id id' g g' p hg hg' hopen hopen' hp hp' => ?_,
    (applyEvent_keyed env).persists (bracket_preserved env) (bracket_kept env) hrun ht⟩
  have hnow : ∀ e ∈ before, e.blockTime.toInt ≤ 2 ^ 63 := fun e _ => by
    have hlt := e.blockTime.toInt_lt
    omega
  have hroom := hbracket _ hnow
  cases hstarted : t.startedAt with
  | none =>
    rw [(hroom.waiting hstarted).1] at hg
    cases hg
  | some s =>
    exact unfinished_unique hroom.capacity hroom.distinct (hroom.running s hstarted) hg hg'
      (winner_of_open hopen) (winner_of_open hopen') hp hp'

def sampleEnv : ArenaEnv := ⟨fun _ => none, fun _ => zero32⟩

/-- An event of room duel-1. -/
def duelEvent (sender action : String) (time : Int64) : ArenaEvent where
  txId := ascii action
  sender := ascii sender
  blockTime := time
  message :=
    { msgType := ascii "chess_t", v := 1, t := ascii "duel-1", a := ascii action,
      g := some (ascii "1-0"), n := none, source := none, target := none, promo := none, k := none,
      p := none }

def duelJoins : List ArenaEvent := [duelEvent "alice" "join" 1, duelEvent "bob" "join" 2]

def duelResigned : List ArenaEvent := [duelEvent "alice" "resign" 3]

theorem duelRoom_isSome :
    ((applyAll sampleEnv ∅ duelJoins).lookup (ascii "duel-1")).isSome = true := by decide +kernel

def duelRoom : Tournament := ((applyAll sampleEnv ∅ duelJoins).lookup (ascii "duel-1")).get duelRoom_isSome

theorem duel_sorted : duelJoins ++ duelResigned ++ [] = chainOrder (duelJoins ++ duelResigned) := by
  unfold chainOrder
  rw [List.append_nil, List.mergeSort_of_pairwise]
  decide +kernel

theorem duelRoom_bracket :
    (∀ now, (∀ e ∈ duelJoins, e.blockTime.toInt ≤ now) → Bracket now duelRoom) ∧
    (∀ id id' g g' p, duelRoom.games.lookup id = some g → duelRoom.games.lookup id' = some g' →
      g.isOver = false → g'.isOver = false → Plays g p → Plays g' p → id = id') ∧
    ∃ t', (applyAll sampleEnv ∅ (duelJoins ++ duelResigned)).lookup (ascii "duel-1") = some t' ∧
      Persists duelRoom t' :=
  replay_bracket sampleEnv (duelJoins ++ duelResigned) duel_sorted (Option.some_get _).symm

end KaChatIndexer.ArenaReplay
