import KaChatIndexer.ArenaLeaderboard
import KaChatIndexer.ArenaReplay

/-!
# What the leaderboard adds up to

Over the rooms of any replay every finished game is one win and one loss, a player stops at most once
in a tournament, and a finished tournament of eight has one champion and seven who lost.
-/
namespace KaChatIndexer.ArenaStandings
open ByteStrings ArenaState ArenaReduce ArenaBracket ArenaRooms ArenaReplay ArenaLeaderboard
  KeyedTally KeyedReplay

inductive Counter
  | wins | losses | duelWins | duelLosses | tournamentGameWins | tournamentGameLosses
  | tournamentsPlayed | tournamentsWon | tournamentsLost
  deriving DecidableEq

namespace Counter

/-- What the counter shows on a row. -/
def value : Counter → LeaderboardRow → ℕ
  | wins => LeaderboardRow.wins
  | losses => LeaderboardRow.losses
  | duelWins => LeaderboardRow.duelWins
  | duelLosses => LeaderboardRow.duelLosses
  | tournamentGameWins => LeaderboardRow.tournamentGameWins
  | tournamentGameLosses => LeaderboardRow.tournamentGameLosses
  | tournamentsPlayed => LeaderboardRow.tournamentsPlayed
  | tournamentsWon => LeaderboardRow.tournamentsWon
  | tournamentsLost => LeaderboardRow.tournamentsLost

/-- What a credit adds to the counter. -/
def weight : Counter → Credit → ℕ
  | wins, .won _ _ => 1
  | losses, .lost _ _ => 1
  | duelWins, .won true _ => 1
  | duelLosses, .lost true _ => 1
  | tournamentGameWins, .won false _ => 1
  | tournamentGameLosses, .lost false _ => 1
  | tournamentsPlayed, .played _ => 1
  | tournamentsWon, .crowned => 1
  | tournamentsLost, .lost false _ => 1
  | _, _ => 0

@[simp] theorem weight_played (c : Counter) (s : Int64) :
    c.weight (.played s) = if c = tournamentsPlayed then 1 else 0 := by
  cases c <;> rfl

@[simp] theorem weight_crowned (c : Counter) :
    c.weight .crowned = if c = tournamentsWon then 1 else 0 := by
  cases c <;> rfl

@[simp] theorem weight_won (c : Counter) (isDuel : Bool) (e : Int64) : c.weight (.won isDuel e) =
    if c = wins ∨ c = (if isDuel then duelWins else tournamentGameWins) then 1 else 0 := by
  cases isDuel <;> cases c <;> rfl

@[simp] theorem weight_lost (c : Counter) (isDuel : Bool) (e : Int64) : c.weight (.lost isDuel e) =
    if c = losses ∨ (if isDuel then c = duelLosses else c = tournamentGameLosses ∨ c = tournamentsLost)
      then 1 else 0 := by
  cases isDuel <;> cases c <;> rfl

theorem value_newRow (c : Counter) (p : Bytes) : c.value (newRow p) = 0 := by cases c <;> rfl

theorem value_apply (c : Counter) (d : Credit) (r : LeaderboardRow) :
    c.value (d.apply r) = c.value r + c.weight d := by
  rcases d with s | ⟨_ | _, e⟩ | ⟨_ | _, e⟩ | _ <;> cases c <;> rfl

end Counter

theorem address_apply (d : Credit) (r : LeaderboardRow) : (d.apply r).address = r.address := by
  rcases d with s | ⟨_ | _, e⟩ | ⟨_ | _, e⟩ | _ <;> rfl

section
variable {o : MapOrders} {rooms : Rooms} {since since' : Int64} {r : LeaderboardRow} {t : Tournament}

/-- All credits of the period. -/
def periodCredits (o : MapOrders) (rooms : Rooms) (since : Int64) : List (Bytes × Credit) :=
  (values o.rooms rooms).flatMap (credits o since)

theorem mem_leaderboard : r ∈ leaderboard o rooms since ↔
    (book newRow Credit.apply ∅ (periodCredits o rooms since)).lookup r.address = some r := by
  rw [leaderboard_books, List.mem_mergeSort, mem_values]
  constructor
  · rintro ⟨k, hk⟩
    have haddress : r.address = k := book_induction (P := fun k r => r.address = k) (fun _ => rfl)
      (fun k d r h => (address_apply d r).trans h) hk
    rw [haddress]
    exact hk
  · intro h
    exact ⟨_, h⟩

theorem row_value (hr : r ∈ leaderboard o rooms since) (c : Counter) :
    c.value r = countAt c.weight (periodCredits o rooms since) r.address :=
  count_book c.value_newRow c.value_apply (mem_leaderboard.mp hr)

/-- A counter of a row, room by room. -/
theorem row_rooms (hr : r ∈ leaderboard o rooms since) (c : Counter) : c.value r =
    ((values o.rooms rooms).map fun t => countAt c.weight (credits o since t) r.address).sum := by
  rw [row_value hr, periodCredits, countAt_flatMap]

/-- What a counter shows over all rows, as a sum over the rooms. -/
theorem total_rooms (c : Counter) : ((leaderboard o rooms since).map c.value).sum =
    sumValues (fun t => ((credits o since t).map fun e => c.weight e.2).sum) rooms := by
  have hperm : ((leaderboard o rooms since).map c.value).Perm
      ((values o.rows (book newRow Credit.apply ∅ (periodCredits o rooms since))).map c.value) := by
    rw [leaderboard_books]
    exact (List.mergeSort_perm ..).map _
  rw [hperm.sum_eq, sum_book c.value_newRow c.value_apply, ← sum_values o.rooms, periodCredits,
    List.map_flatMap, List.flatMap_def, List.sum_flatten, List.map_map]
  rfl

/-- A room of a later period is one of an earlier period. -/
theorem Counts.earlier (hle : since ≤ since') (h : Counts since' t) : Counts since t := by
  obtain ⟨s, hs, hsince⟩ := h
  refine ⟨s, hs, ?_⟩
  rw [Int64.le_iff_toInt_le] at hle hsince ⊢
  exact hle.trans hsince

theorem credits_later (hle : since ≤ since') (c : Counter) (p : Bytes) :
    countAt c.weight (credits o since' t) p ≤ countAt c.weight (credits o since t) p := by
  unfold credits
  by_cases h : Counts since' t
  · rw [if_pos h, if_pos (Counts.earlier hle h)]
  · rw [if_neg h]
    exact Nat.zero_le _

theorem row_later (hle : since ≤ since') {r' : LeaderboardRow}
    (hr' : r' ∈ leaderboard o rooms since') :
    ∃ r ∈ leaderboard o rooms since, r.address = r'.address ∧ ∀ c : Counter, c.value r' ≤ c.value r := by
  have hcredit : ∃ e ∈ periodCredits o rooms since, e.1 = r'.address := by
    obtain ⟨e, he, haddress⟩ := mem_book.mp (Finmap.mem_of_lookup_eq_some (mem_leaderboard.mp hr'))
    refine ⟨e, ?_, haddress⟩
    obtain ⟨t, ht, he⟩ := List.mem_flatMap.mp he
    refine List.mem_flatMap.mpr ⟨t, ht, ?_⟩
    unfold credits at he ⊢
    split_ifs at he with h
    · rw [if_pos (Counts.earlier hle h)]
      exact he
    · cases he
  obtain ⟨r, hr⟩ := Finmap.mem_iff.mp ((@mem_book _ _ _ _ newRow Credit.apply _ _).mpr hcredit)
  have haddress : r.address = r'.address := book_induction (P := fun k r => r.address = k)
    (fun _ => rfl) (fun k d r h => (address_apply d r).trans h) hr
  have hmem : r ∈ leaderboard o rooms since := mem_leaderboard.mpr (haddress ▸ hr)
  refine ⟨r, hmem, haddress, fun c => ?_⟩
  rw [row_rooms hr' c, row_rooms hmem c, haddress]
  exact List.sum_le_sum fun t _ => credits_later hle c _

end

/-- The player lost a game of the room. -/
def Lost (t : Tournament) (p : Bytes) : Prop := ∃ id g w, t.games.lookup id = some g ∧
  g.winner = some w ∧ Plays g p ∧ w ≠ p

/-- Nothing is left to play for: the player lost, or won the last game. -/
def PartOver (t : Tournament) (p : Bytes) : Prop := Lost t p ∨ t.champion = some p

section
variable {now : ℤ} {s : Int64} {t : Tournament} {id id' : Bytes} {g g' : Game} {p w w' : Bytes}

theorem bracket_played (h : Bracket now t) (hs : t.startedAt = some s) :
    Knockout.Played t.rounds (seatOf t) (draw t) :=
  running_played h.capacity h.distinct (h.running s hs)

theorem bracket_drawn (h : Bracket now t) (hs : t.startedAt = some s)
    (hg : t.games.lookup id = some g) :
    draw t g.round g.index = some ⟨g.white, g.black, g.winner⟩ := running_drawn (h.running s hs) hg

theorem bracket_member (h : Bracket now t) (hs : t.startedAt = some s)
    (hg : t.games.lookup id = some g) (hp : Plays g p) : p ∈ t.players := by
  obtain ⟨j, hj, -⟩ := (bracket_played h hs).path (bracket_drawn h hs hg) hp
  obtain ⟨seed, -, hseed⟩ := Option.bind_eq_some_iff.mp hj
  exact List.mem_of_getElem? hseed

/-- Nobody loses twice. -/
theorem bracket_lost_once (h : Bracket now t) (hs : t.startedAt = some s)
    (hg : t.games.lookup id = some g) (hg' : t.games.lookup id' = some g') (hw : g.winner = some w)
    (hw' : g'.winner = some w') (hp : Plays g p) (hp' : Plays g' p) (hne : w ≠ p) (hne' : w' ≠ p) :
    id = id' := by
  obtain ⟨hround, hindex⟩ := (bracket_played h hs).stop_unique (bracket_drawn h hs hg) (bracket_drawn h hs hg') hp hp'
    (by rw [hw]; simpa using hne) (by rw [hw']; simpa using hne')
  rw [((h.running s hs).keys id g hg).1, ((h.running s hs).keys id' g' hg').1, hround, hindex]

theorem champion_final (hc : t.champion = some p) :
    ∃ f, t.game t.rounds 0 = some f ∧ f.winner = some p := Option.bind_eq_some_iff.mp hc

theorem bracket_champion_not_lost (h : Bracket now t) (hs : t.startedAt = some s)
    (hc : t.champion = some p) : ¬ Lost t p := by
  rintro ⟨id, g, w, hg, hw, hp, hne⟩
  obtain ⟨f, hf, hwin⟩ := champion_final hc
  have hfinal : draw t t.rounds 0 = some ⟨f.white, f.black, f.winner⟩ := by
    unfold draw
    rw [hf]
    rfl
  have hwon := (bracket_played h hs).champion_unbeaten hfinal hwin (bracket_drawn h hs hg) hp
  exact hne (Option.some.inj (hw.symm.trans hwon))

theorem bracket_champion_member (h : Bracket now t) (hs : t.startedAt = some s)
    (hc : t.champion = some p) : p ∈ t.players := by
  obtain ⟨f, hf, hwin⟩ := champion_final hc
  exact bracket_member h hs hf ((h.running s hs).winner _ f p hf hwin)

/-- The loser is the player who did not win. -/
theorem bracket_loser (h : Bracket now t) (hs : t.startedAt = some s)
    (hg : t.games.lookup id = some g) (hw : g.winner = some w) :
    loserOf g w = p ↔ Plays g p ∧ w ≠ p := by
  have hne : g.white ≠ g.black := (bracket_played h hs).home_ne_away (bracket_drawn h hs hg)
  unfold loserOf Plays
  rcases (h.running s hs).winner id g w hg hw with rfl | rfl
  · rw [if_pos rfl]
    constructor
    · rintro rfl
      exact ⟨.inr rfl, hne⟩
    · rintro ⟨hp | hp, hwp⟩
      · exact absurd hp.symm hwp
      · exact hp.symm
  · rw [if_neg hne.symm]
    constructor
    · rintro rfl
      exact ⟨.inl rfl, hne.symm⟩
    · rintro ⟨hp | hp, hwp⟩
      · exact hp.symm
      · exact absurd hp.symm hwp

end

section
variable {o : MapOrders} {now : ℤ} {since : Int64} {t : Tournament} {p : Bytes} {g : Game}

theorem countAt_players (δ : Credit → ℕ) (d : Credit) (players : List Bytes) (p : Bytes) :
    countAt δ (players.map fun q => (q, d)) p = players.count p * δ d := by
  induction players with
  | nil => simp [countAt]
  | cons q players ih =>
    unfold countAt at ih ⊢
    rw [List.map_cons, List.map_cons, List.sum_cons, ih, List.count_cons, Nat.add_mul, Nat.add_comm]
    congr 1
    by_cases hq : q = p
    · simp [hq]
    · simp [hq]

/-- What a room adds to a counter of a player's row. -/
theorem countAt_room (δ : Credit → ℕ) (p : Bytes) : countAt δ (roomCredits o t) p =
    (if t.isDuel then 0 else t.players.count p * δ (.played (t.startedAt.getD 0))) +
    sumValues (fun g => countAt δ (gameCredits t.isDuel g) p) t.games +
    if t.isDuel = false ∧ t.champion = some p then δ .crowned else 0 := by
  unfold roomCredits
  rw [countAt_append, countAt_append, countAt_flatMap, sum_values]
  congr 1
  · congr 1
    cases t.isDuel
    · exact countAt_players ..
    · rfl
  · cases t.isDuel with
    | true => rfl
    | false =>
      cases hc : t.champion with
      | none => simp [countAt]
      | some champion => simp [countAt]

/-- What a room adds to a counter over all rows. -/
theorem sum_room (δ : Credit → ℕ) : ((roomCredits o t).map fun e => δ e.2).sum =
    (if t.isDuel then 0 else t.players.length * δ (.played (t.startedAt.getD 0))) +
    sumValues (fun g => ((gameCredits t.isDuel g).map fun e => δ e.2).sum) t.games +
    if t.isDuel = false ∧ t.champion.isSome then δ .crowned else 0 := by
  unfold roomCredits
  rw [List.map_append, List.map_append, List.sum_append, List.sum_append, List.map_flatMap,
    List.flatMap_def, List.sum_flatten, List.map_map, ← sum_values o.games]
  congr 1
  · congr 1
    cases t.isDuel with
    | true => rfl
    | false => simp [Function.comp_def]
  · cases t.isDuel with
    | true => rfl
    | false => cases t.champion <;> simp

theorem game_weight (c : Counter) (isDuel : Bool) (g : Game) (p : Bytes) :
    countAt c.weight (gameCredits isDuel g) p =
      (if g.winner = some p then c.weight (.won isDuel (g.endedAt.getD 0)) else 0) +
      g.winner.elim 0 fun w =>
        if loserOf g w = p then c.weight (.lost isDuel (g.endedAt.getD 0)) else 0 := by
  unfold gameCredits countAt
  cases g.winner <;> simp

theorem duel_count (hduel : t.isDuel = true) (c : Counter)
    (hc : c = .tournamentsPlayed ∨ c = .tournamentsWon ∨ c = .tournamentsLost) :
    countAt c.weight (roomCredits o t) p = 0 := by
  rw [countAt_room, hduel, if_pos rfl, if_neg (by simp), Nat.zero_add, Nat.add_zero]
  refine sumValues_zero fun k g _ => ?_
  rw [game_weight]
  rcases hc with rfl | rfl | rfl <;> cases g.winner <;> simp

theorem played_count (h : Bracket now t) (hduel : t.isDuel = false) :
    countAt Counter.tournamentsPlayed.weight (roomCredits o t) p = if p ∈ t.players then 1 else 0 := by
  rw [countAt_room, hduel, if_neg (by simp), sumValues_zero]
  · rw [List.Nodup.count h.distinct]
    simp
  · intro k g _
    rw [game_weight]
    cases g.winner <;> simp

theorem won_count (hduel : t.isDuel = false) :
    countAt Counter.tournamentsWon.weight (roomCredits o t) p =
      if t.champion = some p then 1 else 0 := by
  rw [countAt_room, hduel, if_neg (by simp), sumValues_zero]
  · simp
  · intro k g _
    rw [game_weight]
    cases g.winner <;> simp

theorem lost_weight (g : Game) (p : Bytes) :
    countAt Counter.tournamentsLost.weight (gameCredits false g) p =
      if ∃ w, g.winner = some w ∧ loserOf g w = p then 1 else 0 := by
  rw [game_weight]
  cases g.winner <;> simp

theorem lost_count (h : Bracket now t) {s : Int64} (hs : t.startedAt = some s)
    (hduel : t.isDuel = false) (hlost : Lost t p) :
    countAt Counter.tournamentsLost.weight (roomCredits o t) p = 1 := by
  obtain ⟨id, g, w, hg, hw, hp, hne⟩ := hlost
  rw [countAt_room, hduel, if_neg (by simp), sumValues_single hg]
  · rw [lost_weight, if_pos ⟨w, hw, (bracket_loser h hs hg hw).mpr ⟨hp, hne⟩⟩]
    simp
  · intro id' g' hg' hid
    rw [lost_weight, if_neg]
    rintro ⟨w', hw', hloser⟩
    obtain ⟨hp', hne'⟩ := (bracket_loser h hs hg' hw').mp hloser
    exact hid (bracket_lost_once h hs hg' hg hw' hw hp' hp hne' hne)

theorem lost_none (h : Bracket now t) {s : Int64} (hs : t.startedAt = some s)
    (hduel : t.isDuel = false) (hlost : ¬ Lost t p) :
    countAt Counter.tournamentsLost.weight (roomCredits o t) p = 0 := by
  rw [countAt_room, hduel, if_neg (by simp), sumValues_zero]
  · simp
  · intro id g hg
    rw [lost_weight, if_neg]
    rintro ⟨w, hw, hloser⟩
    obtain ⟨hp, hne⟩ := (bracket_loser h hs hg hw).mp hloser
    exact hlost ⟨id, g, w, hg, hw, hp, hne⟩

theorem isDuel_iff : t.isDuel = true ↔ t.capacity = 2 := by
  unfold Tournament.isDuel
  exact decide_eq_true_iff

theorem not_duel (h : Bracket now t) : t.isDuel = false ↔ t.capacity = 8 := by
  rw [← Bool.not_eq_true, isDuel_iff]
  have hcapacity := h.capacity
  omega

/-- Within a room a player's part is at most one tournament, and all of it once the part is over. -/
theorem room_part (h : Bracket now t) (p : Bytes) :
    countAt Counter.tournamentsWon.weight (credits o since t) p +
        countAt Counter.tournamentsLost.weight (credits o since t) p ≤
      countAt Counter.tournamentsPlayed.weight (credits o since t) p ∧
    (countAt Counter.tournamentsWon.weight (credits o since t) p +
        countAt Counter.tournamentsLost.weight (credits o since t) p =
      countAt Counter.tournamentsPlayed.weight (credits o since t) p ↔
        (Counts since t → t.capacity = 8 → p ∈ t.players → PartOver t p)) := by
  unfold credits
  by_cases hcounts : Counts since t
  swap
  · rw [if_neg hcounts]
    simp [countAt, hcounts]
  rw [if_pos hcounts]
  obtain ⟨s, hs, -⟩ := id hcounts
  cases hduel : t.isDuel with
  | true =>
    rw [duel_count hduel _ (.inl rfl), duel_count hduel _ (.inr (.inl rfl)),
      duel_count hduel _ (.inr (.inr rfl))]
    have hcapacity := isDuel_iff.mp hduel
    refine ⟨le_refl _, iff_of_true rfl fun _ height => ?_⟩
    omega
  | false =>
    have height := (not_duel h).mp hduel
    rw [played_count h hduel, won_count hduel]
    by_cases hlost : Lost t p
    · have hmember : p ∈ t.players := by
        obtain ⟨id, g, w, hg, -, hp, -⟩ := hlost
        exact bracket_member h hs hg hp
      have hnot : t.champion ≠ some p := fun hc => bracket_champion_not_lost h hs hc hlost
      rw [lost_count h hs hduel hlost, if_neg hnot, if_pos hmember]
      exact ⟨le_refl _, iff_of_true rfl fun _ _ _ => .inl hlost⟩
    · rw [lost_none h hs hduel hlost]
      by_cases hchampion : t.champion = some p
      · rw [if_pos hchampion, if_pos (bracket_champion_member h hs hchampion)]
        exact ⟨le_refl _, iff_of_true rfl fun _ _ _ => .inr hchampion⟩
      · rw [if_neg hchampion]
        refine ⟨Nat.zero_le _, ?_⟩
        have hpart : ¬ PartOver t p := by
          rintro (hp | hp)
          · exact hlost hp
          · exact hchampion hp
        by_cases hmember : p ∈ t.players
        · simp [hmember, hcounts, height, hpart]
        · simp [hmember]

/-- The finished games of a room. -/
def overCount (t : Tournament) : ℕ := sumValues (fun g => if g.isOver then 1 else 0) t.games

theorem game_sum (c : Counter) (isDuel : Bool) (g : Game) :
    ((gameCredits isDuel g).map fun e => c.weight e.2).sum = if g.isOver then
      c.weight (.won isDuel (g.endedAt.getD 0)) + c.weight (.lost isDuel (g.endedAt.getD 0)) else 0 := by
  unfold gameCredits Game.isOver
  cases g.winner <;> simp

theorem wins_sum : ((roomCredits o t).map fun e => Counter.wins.weight e.2).sum = overCount t ∧
    ((roomCredits o t).map fun e => Counter.losses.weight e.2).sum = overCount t := by
  rw [sum_room, sum_room]
  constructor <;>
    · simp only [game_sum]
      unfold overCount
      cases t.isDuel <;> simp

theorem eight_sum (hduel : t.isDuel = false) :
    ((roomCredits o t).map fun e => Counter.tournamentsWon.weight e.2).sum =
      (if t.champion.isSome then 1 else 0) ∧
    ((roomCredits o t).map fun e => Counter.tournamentsLost.weight e.2).sum = overCount t := by
  rw [sum_room, sum_room, hduel]
  constructor
  · simp only [game_sum]
    rw [sumValues_zero fun k g _ => by simp]
    simp
  · simp only [game_sum]
    unfold overCount
    simp

/-- The places of a tournament of eight. -/
def eightPlaces : List (ℕ × ℕ) := [(1, 0), (1, 1), (1, 2), (1, 3), (2, 0), (2, 1), (3, 0)]

theorem mem_eightPlaces {r i : ℕ} : (r, i) ∈ eightPlaces ↔ 1 ≤ r ∧ r ≤ 3 ∧ i / 2 ^ (3 - r) = 0 := by
  rw [Nat.div_eq_zero_iff]
  constructor
  · have hall : ∀ q ∈ eightPlaces, 1 ≤ q.1 ∧ q.1 ≤ 3 ∧ (2 ^ (3 - q.1) = 0 ∨ q.2 < 2 ^ (3 - q.1)) := by
      decide
    exact hall (r, i)
  · rintro ⟨hpos, hle, hlt⟩
    have hlt : i < 2 ^ (3 - r) := by
      rcases hlt with h | h
      · exact absurd h (by positivity)
      · exact h
    have hall : ∀ r < 4, ∀ i < 8, ¬ (1 ≤ r ∧ i < 2 ^ (3 - r)) ∨ (r, i) ∈ eightPlaces := by decide
    have height : i < 2 ^ 3 := hlt.trans_le (Nat.pow_le_pow_right (by omega) (by omega))
    exact (hall r (by omega) i height).resolve_left (not_not.mpr ⟨hpos, hlt⟩)

/-- A finished tournament of eight has seven games, all over. -/
theorem finished_seven (h : Bracket now t) {s : Int64} (hs : t.startedAt = some s)
    (height : t.capacity = 8) (hfinished : t.isFinished = true) : overCount t = 7 := by
  have hrounds : t.rounds = 3 := by
    unfold Tournament.rounds
    rw [(not_duel h).mpr height]
    rfl
  have hfinal : Knockout.Over (draw t) 3 0 := by
    obtain ⟨f, hf, hover⟩ := (Option.any_eq_true _ _).mp hfinished
    exact draw_over.mpr ⟨f, hrounds ▸ hf, hover⟩
  have hplayed := bracket_played h hs
  have hall {r i : ℕ} (hplace : (r, i) ∈ eightPlaces) : Over t r i := by
    obtain ⟨hpos, hle, hi⟩ := mem_eightPlaces.mp hplace
    refine draw_over.mp (hplayed.all_over (k := 3 - r) ?_ hpos hi)
    rwa [Nat.add_sub_cancel' hle]
  have hplace {id : Bytes} {g : Game} (hg : t.games.lookup id = some g) :
      (g.round, g.index) ∈ eightPlaces := by
    obtain ⟨-, hpos, hle⟩ := (h.running s hs).keys id g hg
    rw [hrounds] at hle
    obtain ⟨j, hj, hpath⟩ := hplayed.path (bracket_drawn h hs hg) (.inl rfl)
    have hlt := seatOf_lt h.capacity j _ hj
    rw [hrounds] at hlt
    refine mem_eightPlaces.mpr ⟨hpos, hle, ?_⟩
    rw [← hpath, Nat.div_div_eq_div_mul, ← pow_add, Nat.add_sub_cancel' hle]
    exact Nat.div_eq_of_lt hlt
  have hkeys : t.games.keys = (eightPlaces.map fun q => gameId q.1 q.2).toFinset := by
    ext id
    rw [Finmap.mem_keys, List.mem_toFinset, List.mem_map]
    constructor
    · intro hid
      obtain ⟨g, hg⟩ := Finmap.mem_iff.mp hid
      exact ⟨_, hplace hg, ((h.running s hs).keys id g hg).1.symm⟩
    · rintro ⟨⟨r, i⟩, hq, rfl⟩
      obtain ⟨g, hg, -⟩ := hall hq
      exact Finmap.mem_of_lookup_eq_some hg
  have hnodup : (eightPlaces.map fun q => gameId q.1 q.2).Nodup := by
    refine List.Nodup.map (fun a b heq => ?_) (by decide)
    exact Prod.ext_iff.mpr (gameId_inj.mp heq)
  unfold overCount sumValues
  rw [hkeys, List.sum_toFinset _ hnodup, List.map_map]
  have hone : ∀ q ∈ eightPlaces, ((fun k => ((t.games.lookup k).map fun g : Game =>
      if g.isOver then 1 else 0).getD 0) ∘ fun q : ℕ × ℕ => gameId q.1 q.2) q = 1 := by
    intro q hq
    obtain ⟨g, hg, hover⟩ := hall hq
    change ((t.game q.1 q.2).map _).getD 0 = 1
    rw [hg, Option.map_some, if_pos hover]
    rfl
  rw [List.map_congr_left hone]
  rfl

end

theorem sum_eq_iff {T : Type*} {a b : T → ℕ} {ts : List T} (hle : ∀ t ∈ ts, a t ≤ b t) :
    (ts.map a).sum = (ts.map b).sum ↔ ∀ t ∈ ts, a t = b t := by
  induction ts with
  | nil => simp
  | cons t ts ih =>
    have htail := List.sum_le_sum fun t ht => hle t (List.mem_cons_of_mem _ ht)
    have hhead := hle t List.mem_cons_self
    rw [List.map_cons, List.sum_cons, List.map_cons, List.sum_cons, List.forall_mem_cons,
      ← ih fun t ht => hle t (List.mem_cons_of_mem _ ht)]
    omega

/-- The finished games in the rooms of the period. -/
def finishedGames (rooms : Rooms) (since : Int64) : ℕ :=
  sumValues (fun t => if Counts since t then overCount t else 0) rooms

/-- What a leaderboard over the rooms adds up to. -/
structure Conserved (o : MapOrders) (rooms : Rooms) (since : Int64) : Prop where
  wins : ((leaderboard o rooms since).map LeaderboardRow.wins).sum = finishedGames rooms since
  losses : ((leaderboard o rooms since).map LeaderboardRow.losses).sum = finishedGames rooms since
  split : ∀ r ∈ leaderboard o rooms since, r.wins = r.duelWins + r.tournamentGameWins ∧
    r.losses = r.duelLosses + r.tournamentGameLosses ∧ r.tournamentsLost = r.tournamentGameLosses
  parts : ∀ r ∈ leaderboard o rooms since,
    r.tournamentsWon + r.tournamentsLost ≤ r.tournamentsPlayed ∧
    (r.tournamentsWon + r.tournamentsLost = r.tournamentsPlayed ↔
      ∀ k t, rooms.lookup k = some t → Counts since t → t.capacity = 8 → r.address ∈ t.players →
        PartOver t r.address)
  eights : ∀ k t, rooms.lookup k = some t → Counts since t → t.capacity = 8 → t.isFinished = true →
    ((leaderboard o rooms since).map LeaderboardRow.tournamentsWon).sum =
      ((leaderboard o (rooms.erase k) since).map LeaderboardRow.tournamentsWon).sum + 1 ∧
    ((leaderboard o rooms since).map LeaderboardRow.tournamentsLost).sum =
      ((leaderboard o (rooms.erase k) since).map LeaderboardRow.tournamentsLost).sum + 7
  later : ∀ since', since ≤ since' → ∀ r' ∈ leaderboard o rooms since',
    ∃ r ∈ leaderboard o rooms since, r.address = r'.address ∧
      ∀ c : Counter, c.value r' ≤ c.value r

section
variable {o : MapOrders} {now : ℤ} {rooms : Rooms} {since : Int64} {r : LeaderboardRow}

theorem sum_credits (c : Counter) (total : Tournament → ℕ)
    (h : ∀ t, Counts since t → ((roomCredits o t).map fun e => c.weight e.2).sum = total t) :
    ((leaderboard o rooms since).map c.value).sum =
      sumValues (fun t => if Counts since t then total t else 0) rooms := by
  rw [total_rooms]
  refine sumValues_congr fun k t _ => ?_
  unfold credits
  split_ifs with hcounts
  · exact h t hcounts
  · rfl

/-- Equal weights of every credit give equal counters. -/
theorem row_split (hr : r ∈ leaderboard o rooms since) (c c₁ c₂ : Counter)
    (hweight : ∀ d, c.weight d = c₁.weight d + c₂.weight d) :
    c.value r = c₁.value r + c₂.value r := by
  rw [row_value hr, row_value hr, row_value hr]
  unfold countAt
  rw [← List.sum_map_add]
  congr 1
  refine List.map_congr_left fun e _ => ?_
  rw [hweight]
  split_ifs <;> rfl

theorem eight_credits (c : Counter) {k : Bytes} {t : Tournament} (ht : rooms.lookup k = some t)
    (hcounts : Counts since t) : ((leaderboard o rooms since).map c.value).sum =
      ((leaderboard o (rooms.erase k) since).map c.value).sum +
        ((roomCredits o t).map fun e => c.weight e.2).sum := by
  rw [total_rooms, total_rooms, sumValues_erase ht]
  unfold credits
  rw [if_pos hcounts]

theorem rooms_conserved (o : MapOrders) (since : Int64)
    (h : ∀ k t, rooms.lookup k = some t → Bracket now t) : Conserved o rooms since where
  wins := sum_credits .wins overCount fun _ _ => wins_sum.1
  losses := sum_credits .losses overCount fun _ _ => wins_sum.2
  split r hr := by
    refine ⟨row_split hr .wins .duelWins .tournamentGameWins ?_,
      row_split hr .losses .duelLosses .tournamentGameLosses ?_, ?_⟩
    · rintro (s | ⟨_ | _, e⟩ | ⟨_ | _, e⟩ | _) <;> rfl
    · rintro (s | ⟨_ | _, e⟩ | ⟨_ | _, e⟩ | _) <;> rfl
    · have hlost := row_value hr .tournamentsLost
      have hgames := row_value hr .tournamentGameLosses
      have hweight : Counter.tournamentsLost.weight = Counter.tournamentGameLosses.weight := by
        funext d
        rcases d with s | ⟨_ | _, e⟩ | ⟨_ | _, e⟩ | _ <;> rfl
      rw [hweight] at hlost
      exact hlost.trans hgames.symm
  parts r hr := by
    have hbracket {t : Tournament} (ht : t ∈ values o.rooms rooms) : Bracket now t := by
      obtain ⟨k, hk⟩ := mem_values.mp ht
      exact h k t hk
    change Counter.tournamentsWon.value r + Counter.tournamentsLost.value r ≤
        Counter.tournamentsPlayed.value r ∧
      (Counter.tournamentsWon.value r + Counter.tournamentsLost.value r =
        Counter.tournamentsPlayed.value r ↔ _)
    rw [row_rooms hr, row_rooms hr, row_rooms hr, ← List.sum_map_add]
    have hle (t : Tournament) (ht : t ∈ values o.rooms rooms) :=
      (@room_part o now since t (hbracket ht) r.address).1
    refine ⟨List.sum_le_sum hle, ?_⟩
    rw [sum_eq_iff hle]
    constructor
    · intro hall k t ht
      have hmem : t ∈ values o.rooms rooms := mem_values.mpr ⟨k, ht⟩
      exact (room_part (hbracket hmem) r.address).2.mp (hall t hmem)
    · intro hall t ht
      obtain ⟨k, hk⟩ := mem_values.mp ht
      exact (room_part (hbracket ht) r.address).2.mpr (hall k t hk)
  eights k t ht hcounts height hfinished := by
    have hbracket := h k t ht
    obtain ⟨s, hs, -⟩ := id hcounts
    obtain ⟨hwon, hlost⟩ := @eight_sum o t ((not_duel hbracket).mpr height)
    have hchampion : t.champion.isSome = true := by
      obtain ⟨f, hf, hover⟩ := (Option.any_eq_true _ _).mp hfinished
      unfold Tournament.champion
      rw [hf]
      exact hover
    rw [if_pos hchampion] at hwon
    rw [finished_seven hbracket hs height hfinished] at hlost
    refine ⟨?_, ?_⟩
    · rw [← hwon]
      exact eight_credits .tournamentsWon ht hcounts
    · rw [← hlost]
      exact eight_credits .tournamentsLost ht hcounts
  later since' hle r' hr' := row_later hle hr'

/-- The leaderboard of every replay adds up, from every start on. -/
theorem leaderboard_conserved (env : ArenaEnv) (o : MapOrders) (events : List ArenaEvent)
    (since : Int64) : Conserved o (reduce env events) since := by
  refine @rooms_conserved (2 ^ 63) _ o since fun k t ht => ?_
  exact (applyEvent_keyed env).invariant (bracket_preserved env) (chainOrder_sorted events)
    (fun e _ => e.blockTime.toInt_lt.le) ht

end

end KaChatIndexer.ArenaStandings
