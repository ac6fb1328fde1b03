import KaChatIndexer.ArenaReduce
import KaChatIndexer.ChessMonths
import KaChatIndexer.KaText
import KaChatIndexer.KeyedChoice
import Mathlib.Data.Prod.Lex

/-!
# Games against the bots

A player sends one row for each finished game against a bot, with the result and all moves. The rows
are replayed in chain order, and for each bot the players who beat it are listed with their shortest
win.
-/
namespace KaChatIndexer.BotGames
open ByteStrings ChessPieces ChessEngine ArenaState ArenaReduce KeyedChoice
open KaText (Text isWhitespace)

def botLevels : List Int64 := [1, 2, 3, 4, 5]

def botEndReasons : List Text :=
  ["checkmate".toList, "resignation".toList, "stalemate".toList, "insufficient material".toList,
    "the fifty-move rule".toList, "threefold repetition".toList]

structure BotResultMessage where
  msgType : Text
  v : Int64
  /-- The action. -/
  a : Text
  /-- The game. -/
  g : Text
  bot : Int64
  /-- The colour of the player. -/
  c : Text
  /-- The result for the player. -/
  r : Text
  why : Text
  /-- All moves, of both sides. -/
  m : Text
  deriving DecidableEq

/-- `serde_json::from_str` for the message. -/
structure BotEnv where
  fromStr : Bytes → Option BotResultMessage

/-- The cheap gate, then the decoding. -/
def decodeBotResult (env : BotEnv) (content : Bytes) : Option BotResultMessage :=
  if 16384 < content.length ∨ content.head? ≠ some 0x7b ∨
      !contains (ascii "\"chess_bot\"") content then none
  else (env.fromStr content).filter fun message =>
    message.msgType = "chess_bot".toList ∧ message.v = 2 ∧ message.a = "result".toList

/-- The characters of a UUID in lower case, from the byte `i` on. -/
def idChars : ℕ → Text → Bool
  | _, [] => true
  | i, ch :: rest =>
    (if i = 8 ∨ i = 13 ∨ i = 18 ∨ i = 23 then decide (ch = '-')
      else decide ('0' ≤ ch ∧ ch ≤ '9') || decide ('a' ≤ ch ∧ ch ≤ 'f')) &&
    idChars (i + ch.utf8Size) rest

def isGameId (g : Text) : Bool := (g.map Char.utf8Size).sum = 36 && idChars 0 g

def splitWhitespace (t : Text) : List Text := (t.splitOnP isWhitespace).filter (· ≠ [])

/-- A move such as `e2e4`, or `e7e8q` for a promotion. -/
def readMove (token : Text) : Option Move := do
  guard (token.all fun ch => decide (ch.toNat < 0x80))
  guard (4 ≤ token.length ∧ token.length ≤ 5)
  let bytes := token.map fun ch => ch.toNat.toUInt8
  let promotion ← match bytes.drop 4 with
    | [] => some none
    | letter => (fromPromotionLetter (some letter)).map some
  let source ← fromAlgebraic (bytes.take 2)
  let target ← fromAlgebraic ((bytes.drop 2).take 2)
  return ⟨source, target, promotion⟩

/-- The board and the number of moves after the moves that a text lists. -/
def replayFrom : LiveBoard → ℕ → List Text → Option (LiveBoard × ℕ)
  | board, plies, [] => some (board, plies)
  | board, plies, token :: rest =>
    match readMove token with
    | none => none
    | some mv =>
      if h : board.isLegal (normalizingPromotion mv board.1) then
        replayFrom (board.play (normalizingPromotion mv board.1) (LiveBoard.mem_moves h)) (plies + 1) rest
      else none

def replayBotMoves (m : Text) : Option (LiveBoard × ℕ) := replayFrom .new 0 (splitWhitespace m)

structure BotGame where
  level : Int64
  sender : Bytes
  txId : Bytes
  blockTime : Int64
  gameId : Text
  /-- The player's own moves, when the game is a real win. -/
  winMoves : Option ℕ
  deriving DecidableEq

def playerOf (c : Text) : Option Color :=
  if c = "w".toList then some .white else if c = "b".toList then some .black else none

/-- The moves of one side among so many. -/
def ownMoves (player : Color) (plies : ℕ) : ℕ :=
  if player = .white then (plies + 1) / 2 else plies / 2

/-- The fields other than the moves. -/
def validFields (message : BotResultMessage) : Bool :=
  botLevels.contains message.bot &&
    ["won".toList, "lost".toList, "drawn".toList].contains message.r &&
    botEndReasons.contains message.why

def botGame (row : ArenaRow) (message : BotResultMessage) : Option BotGame := do
  let player ← playerOf message.c
  guard (validFields message)
  let (board, plies) ← replayBotMoves message.m
  let matedByPlayer := decide (board.1.sideToMove = player.opposite) && board.isCheckmate
  let won := decide (message.r = "won".toList) && decide (message.why = "checkmate".toList) &&
    matedByPlayer
  return ⟨message.bot, row.sender, row.txId, row.blockTime, message.g,
    if won then some (ownMoves player plies) else none⟩

/-- One player's shortest win against a bot. -/
structure BotBoardRow where
  address : Bytes
  moves : ℕ
  atMs : Int64
  gameId : Text
  txId : Bytes
  deriving DecidableEq

/-- The games against a bot and the players who beat it. -/
structure BotBoard where
  level : Int64
  games : ℕ
  players : List BotBoardRow
  deriving DecidableEq

def winRow (game : BotGame) : Option BotBoardRow :=
  game.winMoves.map fun moves => ⟨game.sender, moves, game.blockTime, game.gameId, game.txId⟩

/-- Block time, then transaction id. -/
def timeKey (blockTime : Int64) (txId : Bytes) : ℤ ×ₗ List ℕ :=
  toLex (blockTime.toInt, txId.map UInt8.toNat)

def BotBoardRow.time (row : BotBoardRow) : ℤ ×ₗ List ℕ := timeKey row.atMs row.txId

/-- The order of the players: moves, then block time, then transaction id. -/
def BotBoardRow.rank (row : BotBoardRow) : ℕ ×ₗ ℤ ×ₗ List ℕ := toLex (row.moves, row.time)

/-- The boards of the games since a time, for the bots that were played. -/
def botBoards (games : List BotGame) (sinceMs : ℤ) : List BotBoard :=
  botLevels.filterMap fun level =>
    let played := games.filter fun g => g.level = level ∧ sinceMs ≤ g.blockTime.toInt
    let best := bests BotBoardRow.address BotBoardRow.moves (played.filterMap winRow)
    if played.isEmpty then none
    else some ⟨level, played.length, best.insertionSort fun a b => a.rank ≤ b.rank⟩

def rowTime (row : ArenaRow) : ℤ ×ₗ List ℕ := timeKey row.blockTime row.txId

def chainOrder (rows : List ArenaRow) : List ArenaRow :=
  rows.insertionSort fun a b => rowTime a ≤ rowTime b

/-- A row takes the game id of its sender, whether or not the rest of it is valid. -/
def gameKey (env : BotEnv) (row : ArenaRow) : Option (Bytes × Text) :=
  (decodeBotResult env row.content).bind fun message =>
    if isGameId message.g then some (row.sender, message.g) else none

def gameOf (env : BotEnv) (row : ArenaRow) : Option BotGame :=
  (decodeBotResult env row.content).bind (botGame row)

/-- The games of the rows that are the first of their sender and game id. -/
def botGames (env : BotEnv) (rows : List ArenaRow) : List BotGame :=
  (firsts (gameKey env) [] (chainOrder rows)).filterMap (gameOf env)

end KaChatIndexer.BotGames
