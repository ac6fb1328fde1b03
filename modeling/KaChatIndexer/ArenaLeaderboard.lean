import KaChatIndexer.ArenaReduce
import KaChatIndexer.KeyedTally

/-!
# The leaderboard of the arena

The rows that the rooms of a replay give, from a first counted start on. The loops over rooms,
players and games book credits: a game played, won or lost, a tournament won.
-/
namespace KaChatIndexer.ArenaLeaderboard
open ByteStrings ArenaState ArenaReduce KeyedTally

structure LeaderboardRow where
  address : Bytes
  wins : ℕ
  losses : ℕ
  duelWins : ℕ
  duelLosses : ℕ
  tournamentGameWins : ℕ
  tournamentGameLosses : ℕ
  tournamentsPlayed : ℕ
  tournamentsWon : ℕ
  tournamentsLost : ℕ
  lastPlayedAt : Int64
  deriving DecidableEq

abbrev Rows := Finmap fun _ : Bytes => LeaderboardRow

/-- The orders in which the hash maps are iterated. -/
structure MapOrders where
  rooms : KeyOrder Bytes Tournament
  games : KeyOrder Bytes Game
  rows : KeyOrder Bytes LeaderboardRow

def newRow (address : Bytes) : LeaderboardRow := ⟨address, 0, 0, 0, 0, 0, 0, 0, 0, 0, 0⟩

/-- `row(&mut rows, address)`, and a change of the row. -/
def onRow (rows : Rows) (address : Bytes) (change : LeaderboardRow → LeaderboardRow) : Rows :=
  rows.insert address (change ((rows.lookup address).getD (newRow address)))

def played (startedAt : Int64) (r : LeaderboardRow) : LeaderboardRow :=
  { r with
    tournamentsPlayed := r.tournamentsPlayed + 1
    lastPlayedAt := max r.lastPlayedAt startedAt }

def won (isDuel : Bool) (ended : Int64) (r : LeaderboardRow) : LeaderboardRow :=
  let w := { r with wins := r.wins + 1, lastPlayedAt := max r.lastPlayedAt ended }
  if isDuel then { w with duelWins := w.duelWins + 1 }
  else { w with tournamentGameWins := w.tournamentGameWins + 1 }

def lost (isDuel : Bool) (ended : Int64) (r : LeaderboardRow) : LeaderboardRow :=
  let l := { r with losses := r.losses + 1, lastPlayedAt := max r.lastPlayedAt ended }
  if isDuel then { l with duelLosses := l.duelLosses + 1 }
  else { l with
    tournamentGameLosses := l.tournamentGameLosses + 1
    tournamentsLost := l.tournamentsLost + 1 }

def crowned (r : LeaderboardRow) : LeaderboardRow :=
  { r with tournamentsWon := r.tournamentsWon + 1 }

def loserOf (g : Game) (winner : Bytes) : Bytes := if winner = g.white then g.black else g.white

/-- One pass of the loop over the games of a room. -/
def countGame (isDuel : Bool) (rows : Rows) (g : Game) : Rows :=
  match g.winner with
  | none => rows
  | some winner =>
    let ended := g.endedAt.getD 0
    onRow (onRow rows winner (won isDuel ended)) (loserOf g winner) (lost isDuel ended)

/-- One pass of the loop over the rooms. -/
def countRoom (o : MapOrders) (since : Int64) (rows : Rows) (t : Tournament) : Rows :=
  match t.startedAt with
  | none => rows
  | some startedAt =>
    if startedAt < since then rows
    else
      let rows := if t.isDuel then rows
        else t.players.foldl (fun rows player => onRow rows player (played startedAt)) rows
      let rows := (values o.games t.games).foldl (countGame t.isDuel) rows
      if t.isDuel then rows
      else match t.champion with
        | some champion => onRow rows champion crowned
        | none => rows

/-- Most wins first, then fewest losses, then latest played, then the address. -/
def ranksBefore (a b : LeaderboardRow) : Bool :=
  if a.wins ≠ b.wins then b.wins < a.wins
  else if a.losses ≠ b.losses then a.losses < b.losses
  else if a.lastPlayedAt ≠ b.lastPlayedAt then b.lastPlayedAt < a.lastPlayedAt
  else decide (a.address.map UInt8.toNat ≤ b.address.map UInt8.toNat)

def leaderboard (o : MapOrders) (rooms : Rooms) (since : Int64) : List LeaderboardRow :=
  (values o.rows ((values o.rooms rooms).foldl (countRoom o since) ∅)).mergeSort ranksBefore

/-- What a room books on a row. -/
inductive Credit
  | played (startedAt : Int64)
  | won (isDuel : Bool) (ended : Int64)
  | lost (isDuel : Bool) (ended : Int64)
  | crowned

def Credit.apply : Credit → LeaderboardRow → LeaderboardRow
  | .played startedAt => ArenaLeaderboard.played startedAt
  | .won isDuel ended => ArenaLeaderboard.won isDuel ended
  | .lost isDuel ended => ArenaLeaderboard.lost isDuel ended
  | .crowned => ArenaLeaderboard.crowned

def gameCredits (isDuel : Bool) (g : Game) : List (Bytes × Credit) :=
  match g.winner with
  | none => []
  | some winner => [(winner, .won isDuel (g.endedAt.getD 0)),
      (loserOf g winner, .lost isDuel (g.endedAt.getD 0))]

/-- The room started in the period. -/
def Counts (since : Int64) (t : Tournament) : Prop := ∃ s, t.startedAt = some s ∧ since ≤ s

instance (since : Int64) (t : Tournament) : Decidable (Counts since t) :=
  decidable_of_iff (t.startedAt.any fun s => decide (since ≤ s))
    (by simp [Counts, Option.any_eq_true])

def roomCredits (o : MapOrders) (t : Tournament) : List (Bytes × Credit) :=
  (if t.isDuel then [] else t.players.map fun p => (p, .played (t.startedAt.getD 0))) ++
  (values o.games t.games).flatMap (gameCredits t.isDuel) ++
  if t.isDuel then [] else (t.champion.map fun champion => (champion, .crowned)).toList

def credits (o : MapOrders) (since : Int64) (t : Tournament) : List (Bytes × Credit) :=
  if Counts since t then roomCredits o t else []

section
variable (o : MapOrders) (since : Int64)

theorem countGame_books (isDuel : Bool) (rows : Rows) (g : Game) :
    countGame isDuel rows g = book newRow Credit.apply rows (gameCredits isDuel g) := by
  unfold countGame gameCredits
  cases g.winner <;> rfl

theorem countGames_book (isDuel : Bool) (rows : Rows) (games : List Game) :
    games.foldl (countGame isDuel) rows =
      book newRow Credit.apply rows (games.flatMap (gameCredits isDuel)) := by
  induction games generalizing rows with
  | nil => rfl
  | cons g games ih => rw [List.foldl_cons, ih, countGame_books, List.flatMap_cons, book_append]

theorem countPlayers_book (startedAt : Int64) (rows : Rows) (players : List Bytes) :
    players.foldl (fun rows player => onRow rows player (played startedAt)) rows =
      book newRow Credit.apply rows (players.map fun p => (p, .played startedAt)) := by
  unfold book
  rw [List.foldl_map]
  rfl

/-- The loop over a room books the room's credits. -/
theorem countRoom_books (rows : Rows) (t : Tournament) :
    countRoom o since rows t = book newRow Credit.apply rows (credits o since t) := by
  unfold countRoom credits roomCredits
  cases hs : t.startedAt with
  | none =>
    rw [if_neg]
    · rfl
    · rintro ⟨s, hs', -⟩
      rw [hs] at hs'
      cases hs'
  | some s =>
    dsimp only
    by_cases hbefore : s < since
    · rw [if_pos hbefore, if_neg]
      · rfl
      · rintro ⟨s', hs', hle⟩
        rw [hs, Option.some.injEq] at hs'
        exact Int64.not_le.mpr hbefore (hs' ▸ hle)
    · have hcounts : Counts since t := ⟨s, hs, Int64.not_lt.mp hbefore⟩
      rw [if_neg hbefore, if_pos hcounts, book_append, book_append, ← countGames_book]
      cases t.isDuel with
      | true => rfl
      | false =>
        rw [if_neg (by decide), if_neg (by decide), if_neg (by decide), if_neg (by decide),
          countPlayers_book]
        cases t.champion <;> rfl

theorem leaderboard_books (rooms : Rooms) : leaderboard o rooms since =
    (values o.rows (book newRow Credit.apply ∅
      ((values o.rooms rooms).flatMap (credits o since)))).mergeSort ranksBefore := by
  have hall (rows : Rows) (ts : List Tournament) : ts.foldl (countRoom o since) rows =
      book newRow Credit.apply rows (ts.flatMap (credits o since)) := by
    induction ts generalizing rows with
    | nil => rfl
    | cons t ts ih => rw [List.foldl_cons, ih, countRoom_books, List.flatMap_cons, book_append]
  unfold leaderboard
  rw [hall]

end

end KaChatIndexer.ArenaLeaderboard
