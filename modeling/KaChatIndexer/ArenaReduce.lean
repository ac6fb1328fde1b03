import KaChatIndexer.FinmapPatch
import KaChatIndexer.ArenaState
import Mathlib.Data.List.Sort

/-!
# The arena reducer

The events of the arena channel in chain order, applied one by one to the rooms: a room is created or
opened by its first join, fills up, starts its bracket, and its games are played, resigned or claimed.
-/
namespace KaChatIndexer.ArenaReduce
open ByteStrings ChessPieces ChessEngine ArenaState

def toLower (c : UInt8) : UInt8 := if 0x41 ≤ c && c ≤ 0x5a then c + 0x20 else c

/-- `Square::from_algebraic`. No other character lowercases to a file letter, and digits are ASCII. -/
def fromAlgebraic : Bytes → Option Square
  | [f, r] =>
    let file := toLower f
    if 0x61 ≤ file && file ≤ 0x68 && 0x31 ≤ r && r ≤ 0x38 then
      some ⟨file.toNat - 0x61, r.toNat - 0x31⟩
    else none
  | _ => none

def fromPromotionLetter (letter : Option Bytes) : Option PieceType :=
  match letter.map (List.map toLower) with
  | some [0x71] => some .queen
  | some [0x72] => some .rook
  | some [0x62] => some .bishop
  | some [0x6e] => some .knight
  | _ => none

def pieceLetter (p : Piece) : UInt8 :=
  let letter : UInt8 := match p.pieceType with
    | .pawn => 0x70
    | .knight => 0x6e
    | .bishop => 0x62
    | .rook => 0x72
    | .queen => 0x71
    | .king => 0x6b
  if p.color = .white then letter - 0x20 else letter

def algebraic (sq : Square) : Bytes :=
  UInt8.ofNat (0x61 + sq.file).toNat :: decimal (sq.rank + 1).toNat

def positionKey (b : Board) : Bytes :=
  (allSquares.map fun sq => match b.pieceAt sq with
    | some p => pieceLetter p
    | none => 0x2e) ++
  [if b.sideToMove = .white then 0x77 else 0x62,
    if b.whiteCastleK then 0x4b else 0x2d,
    if b.whiteCastleQ then 0x51 else 0x2d,
    if b.blackCastleK then 0x6b else 0x2d,
    if b.blackCastleQ then 0x71 else 0x2d] ++
  match b.enPassant with
  | some sq => algebraic sq
  | none => [0x2d]

def publicIdPrefix : Bytes := ascii "public-"
def duelIdPrefix : Bytes := ascii "duel-"

def numberOf (id pre : Bytes) : Option Int64 := do
  let rest ← stripPrefix pre id
  let n ← parseI64 rest
  if 1 ≤ n then some n else none

def publicNumber (id : Bytes) : Option Int64 := numberOf id publicIdPrefix
def duelNumber (id : Bytes) : Option Int64 := numberOf id duelIdPrefix
def isPublicId (id : Bytes) : Bool := (publicNumber id).isSome || (duelNumber id).isSome

def privateCreateCode : Bytes := ascii "KACHAT-CHESS"

/-- The first 24 hex digits of the hash of the code and the id. -/
def createKey (env : ArenaEnv) (code id : Bytes) : Bytes :=
  let hexDigit (d : UInt8) : UInt8 := if d < 10 then 0x30 + d else 0x57 + d
  ((env.sha256 (code ++ 0x3a :: id)).toList.flatMap fun c => [hexDigit (c / 16), hexDigit (c % 16)]).take
    24

def isValidCreateKey (env : ArenaEnv) (key : Option Bytes) (id : Bytes) : Bool :=
  key = some (createKey env privateCreateCode id)

def finish (g : Game) (winner : Bytes) (outcome : Outcome) (time : Int64) : Game :=
  { g with winner := some winner, outcome := some outcome, endedAt := some time }

/-- A draw on the board: more clock left wins; equal goes to black. -/
def finishDraw (g : Game) (time : Int64) : Game :=
  let whiteLeft := clockMs - g.whiteUsedMs
  let blackLeft := clockMs - g.blackUsedMs
  finish g (if blackLeft < whiteLeft then g.white else g.black) .drawTiebreak time

def makeGame (round index : ℕ) (white black : Bytes) (time : Int64) : Game where
  round := round
  index := index
  white := white
  black := black
  board := .new
  startedAt := time
  movesCount := 0
  whiteUsedMs := 0
  blackUsedMs := 0
  lastEventAt := time
  winner := none
  outcome := none
  endedAt := none
  positionCounts := (∅ : Finmap fun _ : Bytes => ℕ).insert (positionKey LiveBoard.new.1) 1
  halfmoveClock := 0

/-- `*counts.entry(key).or_insert(0) += 1`. -/
def bump (counts : Finmap fun _ : Bytes => ℕ) (key : Bytes) : Finmap fun _ : Bytes => ℕ :=
  counts.insert key ((counts.lookup key).getD 0 + 1)

/-- The pairs of seeds that meet in round 1. -/
def seedPairs (t : Tournament) : List (ℕ × ℕ) :=
  if t.isDuel then [(0, 1)] else [(0, 7), (1, 6), (2, 5), (3, 4)]

/-- One pass of the loop of `start`. The caller has filled the room, so both seeds exist. -/
def startPair (seeds : List Bytes) (time : Int64) (t : Tournament) (pair : (ℕ × ℕ) × ℕ) :
    Tournament :=
  match seeds[pair.1.1]?, seeds[pair.1.2]? with
  | some white, some black =>
    { t with
      games := t.games.insert (gameId 1 pair.2) (makeGame 1 pair.2 white black time)
      whiteCount := bump t.whiteCount white }
  | _, _ => t

def start (t : Tournament) (time : Int64) : Tournament :=
  (seedPairs t).zipIdx.foldl (startPair t.players time) { t with startedAt := some time }

def expireSeats (t : Tournament) (time : Int64) : Tournament :=
  let kept := t.players.filter fun p =>
    decide (time < ((t.joinedAt.lookup p).getD t.createdAt) + seatTtlMs)
  if kept.length = t.players.length then t
  else { t with
    joinedAt := FinmapPatch.eraseAll (t.players.filter fun gone => decide (gone ∉ kept)) t.joinedAt
    players := kept }

/-- The next round's game of a finished game, once both of its feeders have winners. -/
def advanceAfter (t : Tournament) (id : Bytes) : Tournament :=
  match t.games.lookup id with
  | none => t
  | some g =>
    match g.endedAt with
    | none => t
    | some endedAt =>
      if g.round < t.rounds then
        let nextRound := g.round + 1
        let nextIndex := g.index / 2
        match (t.game g.round (nextIndex * 2)).bind Game.winner,
            (t.game g.round (nextIndex * 2 + 1)).bind Game.winner with
        | some a, some b =>
          if (t.game nextRound nextIndex).isSome then t
          else
            let whitesA := (t.whiteCount.lookup a).getD 0
            let whitesB := (t.whiteCount.lookup b).getD 0
            let aIsWhite : Bool :=
              if whitesA ≠ whitesB then whitesA < whitesB
              else (t.seedOf a).getD 99 < (t.seedOf b).getD 99
            let white := if aIsWhite then a else b
            let black := if aIsWhite then b else a
            { t with
              games := t.games.insert (gameId nextRound nextIndex)
                (makeGame nextRound nextIndex white black endedAt)
              whiteCount := bump t.whiteCount white }
        | _, _ => t
      else t

/-- The board, counters and clock after a legal move, before the verdict. -/
def moved (g : Game) (mv : Move) (h : mv ∈ g.board.moves) (elapsed time : Int64) : Game :=
  let piece := g.board.1.pieceAt mv.source
  let isPawn := piece.any fun p => p.pieceType = .pawn
  let isEnPassant := isPawn && decide (some mv.target = g.board.1.enPassant) &&
    (g.board.1.pieceAt mv.target).isNone
  let captured := (g.board.1.pieceAt mv.target).isSome || isEnPassant
  let board := g.board.play mv h
  { g.spend g.sideToMove elapsed with
    board := board
    lastEventAt := time
    movesCount := g.movesCount + 1
    halfmoveClock := if isPawn || captured then 0 else g.halfmoveClock + 1
    positionCounts := bump g.positionCounts (positionKey board.1) }

/-- The five ways in which a move may end the game. -/
def verdict (mover : Color) (time : Int64) (g : Game) : Game :=
  if g.board.isCheckmate then finish g (g.addressOf mover) .checkmate time
  else if g.board.isStalemate then finishDraw g time
  else if isInsufficientMaterial g.board.1 then finishDraw g time
  else if 100 ≤ g.halfmoveClock then finishDraw g time
  else if 3 ≤ (g.positionCounts.lookup (positionKey g.board.1)).getD 0 then finishDraw g time
  else g

/-- `apply_move` on its game; `none` when the move is void. -/
def playMove (e : ArenaEvent) (g : Game) : Option Game :=
  if g.playerToMove ≠ e.sender then none
  else if e.message.n.map Int64.toInt ≠ some (g.movesCount + 1) then none
  else match e.message.source.bind fromAlgebraic, e.message.target.bind fromAlgebraic with
    | some source, some target =>
      let elapsed := g.chargedMs (e.blockTime - g.lastEventAt)
      let remaining := clockMs - g.usedMs g.sideToMove
      if remaining ≤ elapsed then none
      else
        let mv : Move := ⟨source, target, fromPromotionLetter e.message.promo⟩
        if h : g.board.isLegal (normalizingPromotion mv g.board.1) then
          some (verdict g.sideToMove e.blockTime
            (moved g (normalizingPromotion mv g.board.1) (LiveBoard.mem_moves h) elapsed e.blockTime))
        else none
    | _, _ => none

def resignGame (e : ArenaEvent) (g : Game) : Option Game :=
  (g.colorOf e.sender).map fun color =>
    finish g (g.addressOf color.opposite) .resignation e.blockTime

def claimGame (e : ArenaEvent) (g : Game) : Option Game :=
  match g.colorOf e.sender with
  | none => none
  | some color =>
    if color = g.sideToMove then none
    else
      let elapsed := g.chargedMs (e.blockTime - g.lastEventAt)
      let remaining := clockMs - g.usedMs g.sideToMove
      if elapsed < remaining then none
      else some (finish (g.exhaust g.sideToMove) e.sender .timeout e.blockTime)

/-- What move, resign and claim share: find the unfinished game of a live room, change it, and let
the bracket advance when it is over. -/
def onGame (change : ArenaEvent → Game → Option Game) (e : ArenaEvent) (t : Tournament) :
    Tournament :=
  if !t.isLive then t
  else match e.message.g with
    | none => t
    | some id =>
      match t.games.lookup id with
      | none => t
      | some g =>
        if g.isOver then t
        else match change e g with
          | none => t
          | some g' =>
            let t' := { t with games := t.games.insert id g' }
            if g'.isOver then advanceAfter t' id else t'

def applyMove : ArenaEvent → Tournament → Tournament := onGame playMove
def applyResign : ArenaEvent → Tournament → Tournament := onGame resignGame
def applyClaim : ArenaEvent → Tournament → Tournament := onGame claimGame

def newRoom (e : ArenaEvent) (capacity : ℕ) (players : List Bytes)
    (joinedAt : Finmap fun _ : Bytes => Int64) : Tournament where
  creator := e.sender
  createdAt := e.blockTime
  capacity := capacity
  startedAt := none
  cancelled := false
  players := players
  joinedAt := joinedAt
  games := ∅
  whiteCount := ∅

def playerCount : ℕ := 8

def applyCreate (env : ArenaEnv) (e : ArenaEvent) (rooms : Rooms) : Rooms :=
  let m := e.message
  let capacity := if m.p = some 2 then 2 else playerCount
  if m.t ∈ rooms ∨ isPublicId m.t then rooms
  else if ¬ (capacity = 2 ∨ isValidCreateKey env m.k m.t) then rooms
  else rooms.insert m.t (newRoom e capacity [e.sender] ((∅ : Finmap fun _ : Bytes => Int64).insert
    e.sender e.blockTime))

/-- Seats that ran out are given back, then the joiner is seated; a full room starts. -/
def seat (e : ArenaEvent) (t : Tournament) : Tournament :=
  let t := expireSeats t e.blockTime
  if e.sender ∈ t.players then t
  else
    let t := { t with
      players := t.players ++ [e.sender]
      joinedAt := t.joinedAt.insert e.sender e.blockTime }
    if t.players.length = t.capacity then start t e.blockTime else t

def leave (e : ArenaEvent) (t : Tournament) : Tournament :=
  if e.sender ∈ t.players then
    { t with players := t.players.erase e.sender, joinedAt := t.joinedAt.erase e.sender }
  else t

def cancel (e : ArenaEvent) (t : Tournament) : Tournament :=
  if t.isOpen && !isPublicId e.message.t && decide (t.creator = e.sender) then
    { t with cancelled := true }
  else t

/-- `get_mut` of the event's room, and what `change` makes of it. -/
def onRoom (change : ArenaEvent → Tournament → Tournament) (e : ArenaEvent) (rooms : Rooms) : Rooms :=
  match rooms.lookup e.message.t with
  | some t => rooms.insert e.message.t (change e t)
  | none => rooms

/-- The change of an open room; another room stays as it is. -/
def whenOpen (change : ArenaEvent → Tournament → Tournament) (e : ArenaEvent) (t : Tournament) :
    Tournament :=
  if t.isOpen then change e t else t

/-- The capacity of a public room by its id. -/
def publicCapacity (id : Bytes) : Option ℕ :=
  if (publicNumber id).isSome then some playerCount
  else if (duelNumber id).isSome then some 2
  else none

/-- The first join opens a public room, whichever number it names. -/
def applyJoin (e : ArenaEvent) (rooms : Rooms) : Rooms :=
  if e.message.t ∈ rooms then onRoom (whenOpen seat) e rooms
  else match publicCapacity e.message.t with
    | some capacity =>
      onRoom (whenOpen seat) e (rooms.insert e.message.t (newRoom e capacity [] ∅))
    | none => rooms

def applyEvent (env : ArenaEnv) (e : ArenaEvent) (rooms : Rooms) : Rooms :=
  let a := e.message.a
  if a = ascii "create" then applyCreate env e rooms
  else if a = ascii "join" then applyJoin e rooms
  else if a = ascii "leave" then onRoom (whenOpen leave) e rooms
  else if a = ascii "cancel" then onRoom cancel e rooms
  else if a = ascii "move" then onRoom applyMove e rooms
  else if a = ascii "resign" then onRoom applyResign e rooms
  else if a = ascii "claim" then onRoom applyClaim e rooms
  else rooms

/-- Chain order: block time, then transaction id. -/
def chainKey (e : ArenaEvent) : ℤ ×ₗ List ℕ := toLex (e.blockTime.toInt, e.txId.map UInt8.toNat)

def chainOrder (events : List ArenaEvent) : List ArenaEvent :=
  events.mergeSort fun a b => decide (chainKey a ≤ chainKey b)

def applyAll (env : ArenaEnv) (rooms : Rooms) (events : List ArenaEvent) : Rooms :=
  events.foldl (fun rooms e => applyEvent env e rooms) rooms

def reduce (env : ArenaEnv) (events : List ArenaEvent) : Rooms :=
  applyAll env ∅ (chainOrder events)

end KaChatIndexer.ArenaReduce
