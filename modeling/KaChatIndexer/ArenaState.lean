import KaChatIndexer.ByteStrings
import KaChatIndexer.ChessLegality
import Mathlib.Data.Finmap

/-!
# Arena messages, games and rooms

The wire message of a chess tournament with its gate and decoding, and the state of a game and of a
room. A game's board is one that legal moves reach, so its legal moves can always be listed and
played.
-/
namespace KaChatIndexer.ArenaState
open ByteStrings ChessPieces ChessEngine ChessLegality

structure TournamentMessage where
  msgType : Bytes
  v : Int64
  /-- The room. -/
  t : Bytes
  /-- The action. -/
  a : Bytes
  /-- The game. -/
  g : Option Bytes
  /-- The number of the move. -/
  n : Option Int64
  source : Option Bytes
  target : Option Bytes
  promo : Option Bytes
  /-- The proof of the creator code, for a private tournament. -/
  k : Option Bytes
  /-- create only: 2 or 8 players. -/
  p : Option Int64
  deriving DecidableEq

/-- `serde_json::from_str` for the message, and SHA-256. -/
structure ArenaEnv where
  fromStr : Bytes → Option TournamentMessage
  sha256 : Bytes → Bytes32

/-- `chars().count()` of UTF-8 text. -/
def charCount (b : Bytes) : ℕ := b.countP fun c => !isContinuation c

def contains (sub b : Bytes) : Bool := b.tails.any fun rest => sub.isPrefixOf rest

/-- The cheap gate, then the decoding. -/
def decode (env : ArenaEnv) (content : Bytes) : Option TournamentMessage :=
  if 2048 < charCount content ∨ content.head? ≠ some 0x7b ∨
      !contains (ascii "\"chess_t\"") content then none
  else do
    let message ← env.fromStr content
    if message.msgType ≠ ascii "chess_t" ∨ message.v ≠ 1 ∨ message.t = [] ∨
        64 < message.t.length then none
    else some message

/-- A raw broadcast row of the arena channel. -/
structure ArenaRow where
  txId : Bytes
  sender : Bytes
  blockTime : Int64
  content : Bytes
  deriving DecidableEq

structure ArenaEvent where
  txId : Bytes
  sender : Bytes
  blockTime : Int64
  message : TournamentMessage
  deriving DecidableEq

def arenaEvent (env : ArenaEnv) (row : ArenaRow) : Option ArenaEvent :=
  (decode env row.content).map fun message => ⟨row.txId, row.sender, row.blockTime, message⟩

/-- A board that legal moves reach from the first one. -/
def LiveBoard : Type := { b : Board // Reached b }

namespace LiveBoard

def new : LiveBoard := ⟨initialBoard, .start⟩

theorem moves_isSome (b : LiveBoard) : (legalMoves b.1).isSome = true := by
  obtain ⟨moves, hmoves, -⟩ := (reached_sound b.1 b.2).writes
  rw [hmoves, Option.isSome_some]

def moves (b : LiveBoard) : List Move := (legalMoves b.1).get b.moves_isSome

theorem moves_eq (b : LiveBoard) : legalMoves b.1 = some b.moves := (Option.some_get _).symm

def isLegal (m : Move) (b : LiveBoard) : Bool := b.moves.any fun x => x = normalizingPromotion m b.1

theorem isLegal_eq (m : Move) (b : LiveBoard) :
    ChessEngine.isLegal m b.1 = some (b.isLegal m) := by
  simp only [ChessEngine.isLegal, moves_eq, Option.bind_eq_bind, Option.bind_some, Option.pure_def]
  rfl

theorem normalizing_cases (m : Move) (b : Board) :
    normalizingPromotion m b = m ∨ (normalizingPromotion m b).promotion.isSome = true := by
  unfold normalizingPromotion
  split
  · exact .inl rfl
  · split
    · next piece _ =>
      by_cases hp : piece.pieceType = .pawn ∧ m.target.rank = if piece.color = .white then 7 else 0
      · rw [if_pos hp]
        exact .inr rfl
      · exact .inl (if_neg hp)
    · exact .inl rfl

theorem normalizing_idem (m : Move) (b : Board) :
    normalizingPromotion (normalizingPromotion m b) b = normalizingPromotion m b := by
  rcases normalizing_cases m b with h | h
  · rw [h, h]
  · exact if_pos h

/-- A normalized move that is legal is among the moves. -/
theorem mem_moves {b : LiveBoard} {m : Move} (h : b.isLegal (normalizingPromotion m b.1) = true) :
    normalizingPromotion m b.1 ∈ b.moves := by
  obtain ⟨x, hx, heq⟩ := List.any_eq_true.mp h
  rw [decide_eq_true_eq, normalizing_idem] at heq
  exact heq ▸ hx

theorem apply_isSome (b : LiveBoard) {m : Move} (h : m ∈ b.moves) : (apply m b.1).isSome = true := by
  obtain ⟨moves, hmoves, happly⟩ := (reached_sound b.1 b.2).writes
  obtain rfl : b.moves = moves := Option.some.inj (b.moves_eq.symm.trans hmoves)
  obtain ⟨b', hb'⟩ := happly m h
  rw [hb', Option.isSome_some]

def play (b : LiveBoard) (m : Move) (h : m ∈ b.moves) : LiveBoard :=
  ⟨(apply m b.1).get (b.apply_isSome h), .move b.2 b.moves_eq h (Option.some_get _).symm⟩

def isCheckmate (b : LiveBoard) : Bool := isKingInCheck b.1.sideToMove b.1 && b.moves.isEmpty

def isStalemate (b : LiveBoard) : Bool := !isKingInCheck b.1.sideToMove b.1 && b.moves.isEmpty

end LiveBoard

inductive Outcome
  | checkmate | resignation | timeout | drawTiebreak
  deriving DecidableEq

structure Game where
  round : ℕ
  index : ℕ
  white : Bytes
  black : Bytes
  board : LiveBoard
  startedAt : Int64
  movesCount : ℕ
  whiteUsedMs : Int64
  blackUsedMs : Int64
  lastEventAt : Int64
  winner : Option Bytes
  outcome : Option Outcome
  endedAt : Option Int64
  positionCounts : Finmap fun _ : Bytes => ℕ
  halfmoveClock : ℕ

structure Tournament where
  creator : Bytes
  createdAt : Int64
  capacity : ℕ
  startedAt : Option Int64
  cancelled : Bool
  players : List Bytes
  joinedAt : Finmap fun _ : Bytes => Int64
  games : Finmap fun _ : Bytes => Game
  whiteCount : Finmap fun _ : Bytes => ℕ

abbrev Rooms := Finmap fun _ : Bytes => Tournament

def clockMs : Int64 := 5 * 60 * 1000
def moveDelayMs : Int64 := 10 * 1000
def firstMoveGraceMs : Int64 := 25 * 1000
def allowanceFromMs : Int64 := 1790208000000
def allowanceV2FromMs : Int64 := 1790280000000
def seatTtlMs : Int64 := 5 * 60 * 1000

/-- The allowance for the move at `ply` in a game started at `startedAt`. -/
def allowanceMs (ply : ℕ) (startedAt : Int64) : Int64 :=
  if allowanceV2FromMs ≤ startedAt then moveDelayMs
  else if startedAt < allowanceFromMs then 0
  else if ply ≤ 2 then firstMoveGraceMs
  else moveDelayMs

namespace Game

def isOver (g : Game) : Bool := g.winner.isSome

def sideToMove (g : Game) : Color := g.board.1.sideToMove

def playerToMove (g : Game) : Bytes := if g.sideToMove = .white then g.white else g.black

def addressOf (g : Game) (c : Color) : Bytes := if c = .white then g.white else g.black

def colorOf (g : Game) (address : Bytes) : Option Color :=
  if address = g.white then some .white
  else if address = g.black then some .black
  else none

def chargedMs (g : Game) (elapsed : Int64) : Int64 :=
  max (elapsed - allowanceMs (g.movesCount + 1) g.startedAt) 0

def usedMs (g : Game) (c : Color) : Int64 := if c = .white then g.whiteUsedMs else g.blackUsedMs

/-- Spend the clock of one side: `*_used_ms += ms`. -/
def spend (g : Game) (c : Color) (ms : Int64) : Game :=
  if c = .white then { g with whiteUsedMs := g.whiteUsedMs + ms }
  else { g with blackUsedMs := g.blackUsedMs + ms }

/-- The clock of one side is used up. -/
def exhaust (g : Game) (c : Color) : Game :=
  if c = .white then { g with whiteUsedMs := clockMs } else { g with blackUsedMs := clockMs }

end Game

/-- The key of a game in its room's map: `"{round}-{index}"`. -/
def gameId (round index : ℕ) : Bytes := decimal round ++ 0x2d :: decimal index

namespace Tournament

def isDuel (t : Tournament) : Bool := t.capacity = 2

def rounds (t : Tournament) : ℕ := if t.isDuel then 1 else 3

def game (t : Tournament) (round index : ℕ) : Option Game := t.games.lookup (gameId round index)

def seedOf (t : Tournament) (address : Bytes) : Option ℕ :=
  (t.players.findIdx? fun p => p = address).map (· + 1)

def finalGameId (t : Tournament) : Bytes := gameId t.rounds 0

def champion (t : Tournament) : Option Bytes := (t.games.lookup t.finalGameId).bind Game.winner

def isFinished (t : Tournament) : Bool := (t.games.lookup t.finalGameId).any Game.isOver

def isLive (t : Tournament) : Bool := !t.cancelled && t.startedAt.isSome && !t.isFinished

def isOpen (t : Tournament) : Bool := !t.cancelled && t.startedAt.isNone

end Tournament

end KaChatIndexer.ArenaState
