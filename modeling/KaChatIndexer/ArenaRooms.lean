import KaChatIndexer.ArenaBracket
import KaChatIndexer.KeyedReplay

/-!
# Rooms over a replay

An event concerns one room and changes it by that room alone. Every room that a replay leaves has
its bracket in order, and what a started room has settled stays so under all later events.
-/
namespace KaChatIndexer.ArenaRooms
open ByteStrings ArenaState ArenaReduce ArenaBracket FinmapPatch KeyedReplay

section
variable (env : ArenaEnv) (e : ArenaEvent)

/-- The room that a create makes, if it may. -/
def created : Option Tournament :=
  let capacity := if e.message.p = some 2 then 2 else playerCount
  if isPublicId e.message.t then none
  else if ¬ (capacity = 2 ∨ isValidCreateKey env e.message.k e.message.t) then none
  else some (newRoom e capacity [e.sender]
    ((∅ : Finmap fun _ : Bytes => Int64).insert e.sender e.blockTime))

/-- The room that its first join opens. -/
def opened : Option Tournament :=
  (publicCapacity e.message.t).map fun capacity => newRoom e capacity [] ∅

/-- What an action makes of a room that is there. -/
def changeOf (a : Bytes) : ArenaEvent → Tournament → Tournament :=
  if a = ascii "leave" then whenOpen leave
  else if a = ascii "cancel" then cancel
  else if a = ascii "move" then applyMove
  else if a = ascii "resign" then applyResign
  else if a = ascii "claim" then applyClaim
  else fun _ t => t

/-- An event seen from its room. -/
def roomAfter (room : Option Tournament) : Option Tournament :=
  if e.message.a = ascii "create" then room.or (created env e)
  else if e.message.a = ascii "join" then (room.or (opened e)).map (whenOpen seat e)
  else room.map (changeOf e.message.a e)

end

section
variable {env : ArenaEnv} {e : ArenaEvent} {rooms : Rooms} {k : Bytes}

theorem onRoom_lookup (change : ArenaEvent → Tournament → Tournament) :
    (onRoom change e rooms).lookup k =
      if k = e.message.t then (rooms.lookup k).map (change e) else rooms.lookup k := by
  unfold onRoom
  split
  · next t ht =>
    rw [lookup_insert_of]
    split_ifs with hk
    · rw [hk, ht]
      rfl
    · rfl
  · next hnone =>
    split_ifs with hk
    · rw [hk, hnone]
      rfl
    · rfl

theorem applyCreate_lookup : (applyCreate env e rooms).lookup k =
    if k = e.message.t then (rooms.lookup k).or (created env e) else rooms.lookup k := by
  unfold applyCreate created
  dsimp only
  generalize (if e.message.p = some 2 then 2 else playerCount) = capacity
  by_cases hk : k = e.message.t
  · subst hk
    rw [if_pos rfl]
    by_cases hin : e.message.t ∈ rooms
    · obtain ⟨t, ht⟩ := Finmap.mem_iff.mp hin
      rw [if_pos (.inl hin), ht, Option.some_or]
    · rw [Finmap.lookup_eq_none.mpr hin, Option.none_or]
      by_cases hpublic : isPublicId e.message.t = true
      · rw [if_pos (.inr hpublic), if_pos hpublic, Finmap.lookup_eq_none.mpr hin]
      · rw [if_neg (by simp [hin, hpublic]), if_neg hpublic]
        split_ifs
        · exact Finmap.lookup_insert _
        · exact Finmap.lookup_eq_none.mpr hin
  · rw [if_neg hk]
    split_ifs
    · rfl
    · exact Finmap.lookup_insert_of_ne _ hk
    · rfl

theorem applyJoin_lookup : (applyJoin e rooms).lookup k =
    if k = e.message.t then ((rooms.lookup k).or (opened e)).map (whenOpen seat e)
    else rooms.lookup k := by
  unfold applyJoin opened
  by_cases hin : e.message.t ∈ rooms
  · rw [if_pos hin, onRoom_lookup]
    split_ifs with hk
    · obtain ⟨t, ht⟩ := Finmap.mem_iff.mp hin
      rw [hk, ht, Option.some_or]
    · rfl
  · rw [if_neg hin]
    cases publicCapacity e.message.t with
    | none =>
      split_ifs with hk
      · rw [hk, Finmap.lookup_eq_none.mpr hin]
        rfl
      · rfl
    | some capacity =>
      dsimp only
      rw [onRoom_lookup, lookup_insert_of]
      split_ifs with hk
      · rw [hk, Finmap.lookup_eq_none.mpr hin]
        rfl
      · rfl

/-- An event changes the room it names, by that room alone. -/
theorem applyEvent_keyed (env : ArenaEnv) :
    Keyed (fun e : ArenaEvent => e.message.t) (roomAfter env) (applyEvent env) := by
  intro e rooms k
  unfold applyEvent roomAfter
  dsimp only
  by_cases hcreate : e.message.a = ascii "create"
  · rw [if_pos hcreate, if_pos hcreate]
    exact applyCreate_lookup
  rw [if_neg hcreate, if_neg hcreate]
  by_cases hjoin : e.message.a = ascii "join"
  · rw [if_pos hjoin, if_pos hjoin]
    exact applyJoin_lookup
  rw [if_neg hjoin, if_neg hjoin]
  unfold changeOf
  repeat' split
  all_goals first
    | exact onRoom_lookup _
    | rw [onRoom_lookup, if_pos (by assumption)]
    | rw [onRoom_lookup, if_neg (by assumption)]
    | rw [Option.map_id']
    | rfl

end

section
variable {now : ℤ} {t : Tournament} {e : ArenaEvent} {time : Int64}

/-- An open room with a free seat. -/
theorem waiting_bracket (hcapacity : t.capacity = 2 ∨ t.capacity = 8) (hdistinct : t.players.Nodup)
    (hstarted : t.startedAt = none) (hgames : t.games = ∅)
    (hfree : t.players.length < t.capacity) : Bracket now t where
  capacity := hcapacity
  distinct := hdistinct
  seats := hfree.le
  waiting _ := ⟨hgames, hfree⟩
  running s hs := by
    rw [hstarted] at hs
    cases hs

/-- A room that has not started has settled nothing. -/
theorem persists_open {t' : Tournament} (h : Bracket now t) (hstarted : t.startedAt = none) :
    Persists t t' where
  started s hs := by
    rw [hstarted] at hs
    cases hs
  kept id g hg := by
    rw [(h.waiting hstarted).1] at hg
    cases hg

theorem startPair_same (seeds : List Bytes) (pair : (ℕ × ℕ) × ℕ) :
    (startPair seeds time t pair).players = t.players ∧
      (startPair seeds time t pair).capacity = t.capacity ∧
      (startPair seeds time t pair).startedAt = t.startedAt ∧
      (startPair seeds time t pair).cancelled = t.cancelled := by
  unfold startPair
  split <;> exact ⟨rfl, rfl, rfl, rfl⟩

theorem startAll_same (seeds : List Bytes) (pairs : List ((ℕ × ℕ) × ℕ)) :
    (pairs.foldl (startPair seeds time) t).players = t.players ∧
      (pairs.foldl (startPair seeds time) t).capacity = t.capacity ∧
      (pairs.foldl (startPair seeds time) t).startedAt = t.startedAt ∧
      (pairs.foldl (startPair seeds time) t).cancelled = t.cancelled := by
  induction pairs generalizing t with
  | nil => exact ⟨rfl, rfl, rfl, rfl⟩
  | cons pair pairs ih =>
    obtain ⟨hplayers, hcapacity, hstarted, hcancelled⟩ := @startPair_same t time seeds pair
    obtain ⟨hplayers', hcapacity', hstarted', hcancelled'⟩ := @ih (startPair seeds time t pair)
    exact ⟨hplayers'.trans hplayers, hcapacity'.trans hcapacity, hstarted'.trans hstarted,
      hcancelled'.trans hcancelled⟩

theorem start_same : (start t time).players = t.players ∧ (start t time).capacity = t.capacity ∧
    (start t time).startedAt = some time ∧ (start t time).cancelled = t.cancelled :=
  startAll_same t.players (seedPairs t).zipIdx

/-- The games after the loop of `start`: one for each pair of seeds. -/
theorem startAll_lookup (seeds : List Bytes) (hgames : t.games = ∅) (pairs : List (ℕ × ℕ)) (id : Bytes)
    (g : Game) : (pairs.zipIdx.foldl (startPair seeds time) t).games.lookup id = some g ↔
      ∃ i pair white black, pairs[i]? = some pair ∧ seeds[pair.1]? = some white ∧
        seeds[pair.2]? = some black ∧ id = gameId 1 i ∧ g = makeGame 1 i white black time := by
  induction pairs using List.reverseRecOn with
  | nil => simp [hgames]
  | append_singleton pairs pair ih =>
    rw [List.zipIdx_append, List.foldl_append]
    simp only [List.zipIdx_cons, List.zipIdx_nil, List.foldl_cons, List.foldl_nil, Nat.zero_add]
    generalize pairs.zipIdx.foldl (startPair seeds time) t = t₀ at ih
    have hold : (∃ i p white black, pairs[i]? = some p ∧ seeds[p.1]? = some white ∧
          seeds[p.2]? = some black ∧ id = gameId 1 i ∧ g = makeGame 1 i white black time) →
        id ≠ gameId 1 pairs.length := by
      rintro ⟨i, p, white, black, hp, -, -, rfl, -⟩ heq
      rw [(gameId_inj.mp heq).2, List.getElem?_length] at hp
      cases hp
    have hsplit : (∃ i p white black, (pairs ++ [pair])[i]? = some p ∧ seeds[p.1]? = some white ∧
          seeds[p.2]? = some black ∧ id = gameId 1 i ∧ g = makeGame 1 i white black time) ↔
        (∃ i p white black, pairs[i]? = some p ∧ seeds[p.1]? = some white ∧
          seeds[p.2]? = some black ∧ id = gameId 1 i ∧ g = makeGame 1 i white black time) ∨
        ∃ white black, seeds[pair.1]? = some white ∧ seeds[pair.2]? = some black ∧
          id = gameId 1 pairs.length ∧ g = makeGame 1 pairs.length white black time := by
      constructor
      · rintro ⟨i, p, white, black, hp, hrest⟩
        rcases Nat.lt_trichotomy i pairs.length with hi | rfl | hi
        · rw [List.getElem?_append_left hi] at hp
          exact .inl ⟨i, p, white, black, hp, hrest⟩
        · rw [List.getElem?_concat_length, Option.some.injEq] at hp
          exact .inr ⟨white, black, hp ▸ hrest⟩
        · rw [List.getElem?_eq_none (by simp; omega)] at hp
          cases hp
      · rintro (⟨i, p, white, black, hp, hrest⟩ | ⟨white, black, hrest⟩)
        · have hi : i < pairs.length := (List.getElem?_eq_some_iff.mp hp).1
          exact ⟨i, p, white, black, by rw [List.getElem?_append_left hi]; exact hp, hrest⟩
        · exact ⟨pairs.length, pair, white, black, List.getElem?_concat_length, hrest⟩
    rw [hsplit, ← ih]
    unfold startPair
    split
    · next white black hwhite hblack =>
      rw [lookup_insert_of]
      split_ifs with hid
      · rw [Option.some.injEq]
        constructor
        · rintro rfl
          exact .inr ⟨white, black, hwhite, hblack, hid, rfl⟩
        · rintro (hlookup | ⟨white', black', hwhite', hblack', -, rfl⟩)
          · exact absurd hid (hold (ih.mp hlookup))
          · rw [hwhite, Option.some.injEq] at hwhite'
            rw [hblack, Option.some.injEq] at hblack'
            rw [hwhite', hblack']
      · constructor
        · exact .inl
        · rintro (hlookup | ⟨-, -, -, -, heq, -⟩)
          · exact hlookup
          · exact absurd heq hid
    · next hmissing =>
      constructor
      · exact .inl
      · rintro (hlookup | ⟨white, black, hwhite, hblack, -⟩)
        · exact hlookup
        · exact absurd hblack (hmissing white black hwhite)

theorem start_lookup (hgames : t.games = ∅) (id : Bytes) (g : Game) :
    (start t time).games.lookup id = some g ↔
      ∃ i pair white black, (seedPairs t)[i]? = some pair ∧ t.players[pair.1]? = some white ∧
        t.players[pair.2]? = some black ∧ id = gameId 1 i ∧ g = makeGame 1 i white black time :=
  @startAll_lookup { t with startedAt := some time } time t.players hgames (seedPairs t) id g

/-- The seeds that meet in round 1 are there in a full room. -/
theorem seeds_present (hcapacity : t.capacity = 2 ∨ t.capacity = 8)
    (hfull : t.players.length = t.capacity) {i : ℕ} {pair : ℕ × ℕ}
    (hpair : (seedPairs t)[i]? = some pair) :
    ∃ white black, t.players[pair.1]? = some white ∧ t.players[pair.2]? = some black := by
  have hbound : ∀ p ∈ seedPairs t, p.1 < t.capacity ∧ p.2 < t.capacity := by
    unfold seedPairs Tournament.isDuel
    rcases hcapacity with h | h <;> rw [h] <;> decide
  obtain ⟨h1, h2⟩ := hbound pair (List.mem_of_getElem? hpair)
  exact ⟨_, _, List.getElem?_eq_getElem (hfull ▸ h1), List.getElem?_eq_getElem (hfull ▸ h2)⟩

/-- A full room starts with its first round. -/
theorem start_running (hcapacity : t.capacity = 2 ∨ t.capacity = 8)
    (hfull : t.players.length = t.capacity) (hgames : t.games = ∅) :
    Running now time (start t time) := by
  have hlookup := @start_lookup t time hgames
  obtain ⟨hplayers, hcap, -, -⟩ := @start_same t time
  have hpairs : seedPairs (start t time) = seedPairs t := by
    unfold seedPairs Tournament.isDuel
    rw [hcap]
  have hopen {id : Bytes} {g : Game} (hg : (start t time).games.lookup id = some g) :
      g.winner = none ∧ g.endedAt = none := by
    obtain ⟨i, pair, white, black, -, -, -, -, rfl⟩ := (hlookup id g).mp hg
    exact ⟨rfl, rfl⟩
  have hround {r i : ℕ} {g : Game} (hg : (start t time).game r i = some g) : r = 1 := by
    obtain ⟨i', pair, white, black, -, -, -, hid, -⟩ := (hlookup _ g).mp hg
    exact (gameId_inj.mp hid).1
  refine ⟨⟨fun id g hg => ?_, fun i g hg => ?_, fun i hi => ?_, fun r i g hr hg => ?_,
    fun id g w hg hw => ?_, fun id g hg => ?_⟩, ?_, fun r i hr => ?_⟩
  · obtain ⟨i, pair, white, black, -, -, -, rfl, rfl⟩ := (hlookup id g).mp hg
    refine ⟨rfl, le_refl 1, ?_⟩
    change 1 ≤ (start t time).rounds
    unfold Tournament.rounds
    split <;> decide
  · obtain ⟨i', pair, white, black, hpair, hwhite, hblack, hid, rfl⟩ := (hlookup _ g).mp hg
    obtain ⟨-, rfl⟩ := gameId_inj.mp hid
    rw [hpairs, hplayers]
    exact ⟨pair, hpair, rfl, hwhite, hblack⟩
  · rw [hpairs] at hi
    obtain ⟨white, black, hwhite, hblack⟩ :=
      seeds_present hcapacity hfull (List.getElem?_eq_getElem hi)
    have hgame := (hlookup (gameId 1 i) _).mpr
      ⟨i, _, white, black, List.getElem?_eq_getElem hi, hwhite, hblack, rfl, rfl⟩
    unfold Tournament.game
    rw [hgame]
    simp
  · have hr' := hround hg
    omega
  · rw [(hopen hg).1] at hw
    cases hw
  · obtain ⟨hwinner, hended⟩ := hopen hg
    rw [hwinner, hended]
    exact ⟨by simp, by simp⟩
  · rw [hplayers, hcap, hfull]
  · constructor
    · intro hexists
      obtain ⟨g, hg⟩ := Option.ne_none_iff_exists'.mp hexists
      have hr' := hround hg
      omega
    · rintro ⟨-, ⟨g, hg, hover⟩, -⟩
      rw [Game.isOver, (hopen hg).1] at hover
      cases hover

theorem start_bracket (hcapacity : t.capacity = 2 ∨ t.capacity = 8) (hdistinct : t.players.Nodup)
    (hfull : t.players.length = t.capacity) (hgames : t.games = ∅) : Bracket now (start t time) := by
  obtain ⟨hplayers, hcap, hstarted, -⟩ := @start_same t time
  refine ⟨by rwa [hcap], by rwa [hplayers], by rw [hplayers, hcap, hfull], fun hnone => ?_,
    fun s hs => ?_⟩
  · rw [hstarted] at hnone
    cases hnone
  · rw [hstarted, Option.some.injEq] at hs
    exact hs ▸ start_running hcapacity hfull hgames

theorem expireSeats_same : (expireSeats t time).players.Sublist t.players ∧
    (expireSeats t time).capacity = t.capacity ∧ (expireSeats t time).startedAt = t.startedAt ∧
    (expireSeats t time).games = t.games ∧ (expireSeats t time).cancelled = t.cancelled := by
  unfold expireSeats
  dsimp only
  split
  · exact ⟨List.Sublist.refl _, rfl, rfl, rfl, rfl⟩
  · exact ⟨List.filter_sublist, rfl, rfl, rfl, rfl⟩

theorem seat_bracket (h : Bracket now t) (hopen : t.startedAt = none) : Bracket now (seat e t) := by
  obtain ⟨hsub, hcap, hstarted, hgames, -⟩ := @expireSeats_same t e.blockTime
  obtain ⟨hempty, hfree⟩ := h.waiting hopen
  rw [hempty] at hgames
  rw [hopen] at hstarted
  have hcapacity := hcap ▸ h.capacity
  have hdistinct := h.distinct.sublist hsub
  have hlength := hsub.length_le
  unfold seat
  dsimp only
  generalize expireSeats t e.blockTime = t₀ at *
  by_cases hseated : e.sender ∈ t₀.players
  · rw [if_pos hseated]
    exact waiting_bracket hcapacity hdistinct hstarted hgames (by omega)
  · rw [if_neg hseated]
    have hnodup : (t₀.players ++ [e.sender]).Nodup := by
      rw [List.nodup_append_comm]
      exact List.nodup_cons.mpr ⟨hseated, hdistinct⟩
    have hlast : (t₀.players ++ [e.sender]).length = t₀.players.length + 1 := by simp
    split_ifs with hfull
    · exact start_bracket hcapacity hnodup hfull hgames
    · refine waiting_bracket hcapacity hnodup hstarted hgames ?_
      dsimp only at hfull ⊢
      omega

theorem leave_bracket (h : Bracket now t) (hopen : t.startedAt = none) : Bracket now (leave e t) := by
  obtain ⟨hempty, hfree⟩ := h.waiting hopen
  unfold leave
  split
  · refine waiting_bracket h.capacity (h.distinct.erase _) hopen hempty ?_
    exact (List.erase_sublist).length_le.trans_lt hfree
  · exact h

theorem open_started (hopen : t.isOpen = true) : t.startedAt = none := by
  unfold Tournament.isOpen at hopen
  rw [Bool.and_eq_true, Option.isNone_iff_eq_none] at hopen
  exact hopen.2

/-- A change of open rooms. -/
theorem whenOpen_bracket {change : ArenaEvent → Tournament → Tournament} (h : Bracket now t)
    (hchange : t.startedAt = none → Bracket now (change e t)) :
    Bracket now (whenOpen change e t) ∧ Persists t (whenOpen change e t) := by
  unfold whenOpen
  split_ifs with hopen
  · exact ⟨hchange (open_started hopen), persists_open h (open_started hopen)⟩
  · exact ⟨h, Persists.refl t⟩

theorem cancel_bracket (h : Bracket now t) :
    Bracket now (cancel e t) ∧ Persists t (cancel e t) := by
  unfold cancel
  split_ifs with hcancel
  · rw [Bool.and_eq_true, Bool.and_eq_true] at hcancel
    have hopen := open_started hcancel.1.1
    obtain ⟨hempty, hfree⟩ := h.waiting hopen
    exact ⟨waiting_bracket h.capacity h.distinct hopen hempty hfree, persists_open h hopen⟩
  · exact ⟨h, Persists.refl t⟩

theorem running_bracket {s : Int64} {t' : Tournament} (h : Bracket now t)
    (hs : t.startedAt = some s) (hrunning : Running now s t') (hkept : Persists t t') :
    Bracket now t' := by
  obtain ⟨hs', hplayers, hcapacity⟩ := hkept.started s hs
  refine ⟨?_, ?_, hrunning.full.le, fun hnone => ?_, fun s' hs'' => ?_⟩
  · rw [hcapacity]
    exact h.capacity
  · rw [hplayers]
    exact h.distinct
  · exact absurd (hs'.symm.trans hnone) (by simp)
  · obtain rfl : s = s' := Option.some.inj (hs'.symm.trans hs'')
    exact hrunning

/-- A change of an unfinished game of a live room. -/
theorem onGame_open {change : ArenaEvent → Game → Option Game} {id : Bytes} {g : Game}
    (hlive : t.isLive = true) (hid : e.message.g = some id) (hg : t.games.lookup id = some g)
    (hopen : g.isOver = false) : onGame change e t = match change e g with
      | none => t
      | some g' => if g'.isOver then advanceAfter (withGame t id g') id else withGame t id g' := by
  unfold onGame
  rw [if_neg (by simp [hlive]), hid]
  dsimp only
  rw [hg]
  dsimp only
  rw [if_neg (by simp [hopen])]
  rfl

/-- All that move, resign and claim can do to a room. -/
theorem onGame_cases (change : ArenaEvent → Game → Option Game) (e : ArenaEvent) (t : Tournament) :
    onGame change e t = t ∨ ∃ id g g', e.message.g = some id ∧ t.games.lookup id = some g ∧
      t.isLive = true ∧ g.isOver = false ∧ change e g = some g' ∧ onGame change e t =
        if g'.isOver then advanceAfter (withGame t id g') id else withGame t id g' := by
  by_cases hlive : t.isLive = true
  swap
  · exact .inl (if_pos (by simpa using hlive))
  cases hid : e.message.g with
  | none =>
    refine .inl ?_
    unfold onGame
    rw [if_neg (by simp [hlive]), hid]
  | some id =>
    cases hg : t.games.lookup id with
    | none =>
      refine .inl ?_
      unfold onGame
      rw [if_neg (by simp [hlive]), hid]
      dsimp only
      rw [hg]
    | some g =>
      by_cases hopen : g.isOver = false
      · have heq := @onGame_open t e change id g hlive hid hg hopen
        cases hchange : change e g with
        | none =>
          rw [hchange] at heq
          exact .inl heq
        | some g' =>
          rw [hchange] at heq
          exact .inr ⟨id, g, g', rfl, hg, hlive, hopen, hchange, heq⟩
      · refine .inl ?_
        unfold onGame
        rw [if_neg (by simp [hlive]), hid]
        dsimp only
        rw [hg]
        dsimp only
        rw [if_pos (by simpa using hopen)]

theorem live_started (hlive : t.isLive = true) : ∃ s, t.startedAt = some s := by
  unfold Tournament.isLive at hlive
  rw [Bool.and_eq_true, Bool.and_eq_true] at hlive
  exact Option.isSome_iff_exists.mp hlive.1.2

theorem winner_of_open {g : Game} (hopen : g.isOver = false) : g.winner = none := by
  simpa [Game.isOver] using hopen

theorem onGame_bracket {change : ArenaEvent → Game → Option Game}
    (hchange : ∀ g g', g.winner = none → g.endedAt = none → change e g = some g' →
      Progress e.blockTime g g')
    (h : Bracket e.blockTime.toInt t) :
    Bracket e.blockTime.toInt (onGame change e t) ∧ Persists t (onGame change e t) := by
  rcases onGame_cases change e t with heq | ⟨id, g, g', -, hg, hlive, hopen, hg', heq⟩
  · rw [heq]
    exact ⟨h, Persists.refl t⟩
  · obtain ⟨s, hs⟩ := live_started hlive
    have hwinner := winner_of_open hopen
    have hended := ((h.running s hs).ended id g hg).1.mp hwinner
    obtain ⟨hrunning, hkept⟩ := running_progress (h.running s hs) (le_refl _) hg hwinner
      (hchange g g' hwinner hended hg')
    rw [heq]
    exact ⟨running_bracket h hs hrunning hkept, hkept⟩

theorem changeOf_bracket (a : Bytes) (h : Bracket e.blockTime.toInt t) :
    Bracket e.blockTime.toInt (changeOf a e t) ∧ Persists t (changeOf a e t) := by
  unfold changeOf
  split_ifs
  · exact whenOpen_bracket h (leave_bracket h)
  · exact cancel_bracket h
  · exact onGame_bracket (fun _ _ hwinner hended => playMove_progress hwinner hended) h
  · exact onGame_bracket (fun _ _ _ _ => resignGame_progress) h
  · exact onGame_bracket (fun _ _ _ _ => claimGame_progress) h
  · exact ⟨h, Persists.refl t⟩

theorem newRoom_bracket {capacity : ℕ} {players : List Bytes}
    {joinedAt : Finmap fun _ : Bytes => Int64} (hcapacity : capacity = 2 ∨ capacity = 8)
    (hdistinct : players.Nodup) (hfree : players.length < capacity) :
    Bracket now (newRoom e capacity players joinedAt) :=
  waiting_bracket hcapacity hdistinct rfl rfl hfree

theorem created_bracket {env : ArenaEnv} (h : created env e = some t) : Bracket now t := by
  unfold created at h
  dsimp only at h
  split_ifs at h
  · obtain rfl := Option.some.inj h
    exact newRoom_bracket (.inl rfl) (List.nodup_singleton _) Nat.one_lt_two
  · obtain rfl := Option.some.inj h
    exact newRoom_bracket (.inr rfl) (List.nodup_singleton _) (show 1 < 8 by decide)

theorem opened_bracket (h : opened e = some t) : Bracket now t := by
  obtain ⟨capacity, hcapacity, rfl⟩ := Option.map_eq_some_iff.mp h
  unfold publicCapacity at hcapacity
  split_ifs at hcapacity
  · obtain rfl := Option.some.inj hcapacity
    exact newRoom_bracket (.inr rfl) List.nodup_nil (by decide)
  · obtain rfl := Option.some.inj hcapacity
    exact newRoom_bracket (.inl rfl) List.nodup_nil (by decide)

/-- A new room has not started. -/
theorem created_started {env : ArenaEnv} (h : created env e = some t) : t.startedAt = none := by
  unfold created at h
  dsimp only at h
  split_ifs at h <;>
    · obtain rfl := Option.some.inj h
      rfl

theorem opened_started (h : opened e = some t) : t.startedAt = none := by
  obtain ⟨capacity, -, rfl⟩ := Option.map_eq_some_iff.mp h
  rfl

theorem bracket_preserved (env : ArenaEnv) :
    Preserved (roomAfter env) (fun e => e.blockTime.toInt) Bracket where
  mono _ _ _ hle h := h.mono hle
  step e room t h hafter := by
    have hor {other : Option Tournament} (hother : ∀ t₀, other = some t₀ → Bracket e.blockTime.toInt t₀)
        {t₀ : Tournament} (ht₀ : room.or other = some t₀) : Bracket e.blockTime.toInt t₀ := by
      cases room with
      | none => exact hother t₀ ht₀
      | some t₁ => exact h t₀ ht₀
    unfold roomAfter at hafter
    split_ifs at hafter
    · exact hor (fun _ => created_bracket) hafter
    · obtain ⟨t₀, ht₀, rfl⟩ := Option.map_eq_some_iff.mp hafter
      have hbefore := hor (fun _ => opened_bracket) ht₀
      exact (whenOpen_bracket hbefore (seat_bracket hbefore)).1
    · obtain ⟨t₀, ht₀, rfl⟩ := Option.map_eq_some_iff.mp hafter
      exact (changeOf_bracket _ (h t₀ ht₀)).1

theorem bracket_kept (env : ArenaEnv) :
    Kept (roomAfter env) (fun e => e.blockTime.toInt) Bracket Persists where
  refl := Persists.refl
  trans _ _ _ := Persists.trans
  step e t h := by
    unfold roomAfter
    split_ifs
    · exact ⟨t, rfl, Persists.refl t⟩
    · exact ⟨_, rfl, (whenOpen_bracket h (seat_bracket h)).2⟩
    · exact ⟨_, rfl, (changeOf_bracket _ h).2⟩

end

end KaChatIndexer.ArenaRooms
