import KaChatIndexer.ChessPieces

/-!
# The rules engine

Move generation, attacks and the application of a move. A write outside the 8×8 array panics, which
is `none` here.
-/
namespace KaChatIndexer.ChessEngine
open ChessPieces

structure Board where
  /-- `squares rank file`, rank 0 is "1". -/
  squares : Fin 8 → Fin 8 → Option Piece
  sideToMove : Color
  whiteCastleK : Bool
  whiteCastleQ : Bool
  blackCastleK : Bool
  blackCastleQ : Bool
  enPassant : Option Square

theorem Board.eq_iff {b b' : Board} : (∀ r f, b.squares r f = b'.squares r f) ∧
    b.sideToMove = b'.sideToMove ∧ b.whiteCastleK = b'.whiteCastleK ∧
    b.whiteCastleQ = b'.whiteCastleQ ∧ b.blackCastleK = b'.blackCastleK ∧
    b.blackCastleQ = b'.blackCastleQ ∧ b.enPassant = b'.enPassant ↔ b = b' := by
  constructor
  · rintro ⟨hsquares, hside, hwk, hwq, hbk, hbq, hpassed⟩
    have hsquares : b.squares = b'.squares := funext fun r => funext (hsquares r)
    cases b
    cases b'
    simp only at *
    subst_vars
    rfl
  · rintro rfl
    exact ⟨fun _ _ => rfl, rfl, rfl, rfl, rfl, rfl, rfl⟩

instance : DecidableEq Board := fun _ _ => decidable_of_iff _ Board.eq_iff

section
variable (b : Board)

def Board.pieceAt (sq : Square) : Option Piece :=
  if sq.isValid then b.squares (Fin.ofNat 8 sq.rank.toNat) (Fin.ofNat 8 sq.file.toNat) else none

/-- The write of `set_piece` at a square of the board. -/
def Board.put (piece : Option Piece) (sq : Square) : Board :=
  { b with squares := fun r f => if sq = ⟨f, r⟩ then piece else b.squares r f }

def Board.setPiece (piece : Option Piece) (sq : Square) : Option Board :=
  if sq.isValid then some (b.put piece sq) else none

def Board.canCastleK (color : Color) : Bool :=
  if color = .white then b.whiteCastleK else b.blackCastleK

def Board.canCastleQ (color : Color) : Bool :=
  if color = .white then b.whiteCastleQ else b.blackCastleQ

def Board.setCastleK (value : Bool) (color : Color) : Board :=
  if color = .white then { b with whiteCastleK := value } else { b with blackCastleK := value }

def Board.setCastleQ (value : Bool) (color : Color) : Board :=
  if color = .white then { b with whiteCastleQ := value } else { b with blackCastleQ := value }

end

def knightOffsets : List (ℤ × ℤ) :=
  [(1, 2), (2, 1), (2, -1), (1, -2), (-1, -2), (-2, -1), (-2, 1), (-1, 2)]

def kingOffsets : List (ℤ × ℤ) :=
  [(1, 0), (1, 1), (0, 1), (-1, 1), (-1, 0), (-1, -1), (0, -1), (1, -1)]

def diagonalDirs : List (ℤ × ℤ) := [(1, 1), (1, -1), (-1, 1), (-1, -1)]
def straightDirs : List (ℤ × ℤ) := [(1, 0), (-1, 0), (0, 1), (0, -1)]

def backRank : Fin 8 → PieceType
  | 0 => .rook | 1 => .knight | 2 => .bishop | 3 => .queen
  | 4 => .king | 5 => .bishop | 6 => .knight | 7 => .rook

def initialBoard : Board where
  squares r f :=
    if r = 0 then some ⟨backRank f, .white⟩
    else if r = 1 then some ⟨.pawn, .white⟩
    else if r = 6 then some ⟨.pawn, .black⟩
    else if r = 7 then some ⟨backRank f, .black⟩
    else none
  sideToMove := .white
  whiteCastleK := true
  whiteCastleQ := true
  blackCastleK := true
  blackCastleQ := true
  enPassant := none

/-- The squares of the board, in the order of the loops over ranks and files. -/
def allSquares : List Square :=
  (List.range 8).flatMap fun rank : ℕ => (List.range 8).map fun file : ℕ => ⟨file, rank⟩

def findKing (color : Color) (b : Board) : Option Square :=
  allSquares.find? fun sq => b.pieceAt sq = some ⟨.king, color⟩

/-- The loop of `sliding_attacker` from `current` on. -/
def slidingLoop (dir : ℤ × ℤ) (b : Board) (color : Color) (types : List PieceType) :
    ℕ → Square → Bool
  | 0, _ => false
  | fuel + 1, current =>
    if current.isValid then
      match b.pieceAt current with
      | some p => decide (p.color = color) && decide (p.pieceType ∈ types)
      | none => slidingLoop dir b color types fuel (current.shift dir 1)
    else false

/-- A ray leaves the board within eight steps. -/
def raySteps : ℕ := 8

def slidingAttacker (sq : Square) (dir : ℤ × ℤ) (b : Board) (color : Color) (types : List PieceType) :
    Bool :=
  slidingLoop dir b color types raySteps (sq.shift dir 1)

def isSquareAttacked (sq : Square) (color : Color) (b : Board) : Bool :=
  let pawnRankOffset : ℤ := if color = .white then -1 else 1
  ([-1, 1] : List ℤ).any (fun off =>
    b.pieceAt ⟨sq.file + off, sq.rank + pawnRankOffset⟩ = some ⟨.pawn, color⟩) ||
  knightOffsets.any (fun d => b.pieceAt (sq.shift d 1) = some ⟨.knight, color⟩) ||
  kingOffsets.any (fun d => b.pieceAt (sq.shift d 1) = some ⟨.king, color⟩) ||
  diagonalDirs.any (fun d => slidingAttacker sq d b color [.bishop, .queen]) ||
  straightDirs.any (fun d => slidingAttacker sq d b color [.rook, .queen])

def isKingInCheck (color : Color) (b : Board) : Bool :=
  match findKing color b with
  | some kingSq => isSquareAttacked kingSq color.opposite b
  | none => false

/-- `add_move` of `pawn_moves`. -/
def addMove (backRank : ℤ) (sq target : Square) : List Move :=
  if !target.isValid then []
  else if target.rank = backRank then
    [.queen, .rook, .bishop, .knight].map fun promo => ⟨sq, target, some promo⟩
  else [⟨sq, target, none⟩]

/-- The single and the double push of `pawn_moves`. -/
def pawnPushes (direction startRank backRank : ℤ) (sq : Square) (b : Board) : List Move :=
  let singlePush : Square := ⟨sq.file, sq.rank + direction⟩
  let doublePush : Square := ⟨sq.file, sq.rank + direction * 2⟩
  if singlePush.isValid && (b.pieceAt singlePush).isNone then
    addMove backRank sq singlePush ++
      (if decide (sq.rank = startRank) && (b.pieceAt doublePush).isNone then
        [⟨sq, doublePush, none⟩]
      else [])
  else []

/-- The capture of `pawn_moves` on one side, en passant included. -/
def pawnCapture (backRank : ℤ) (color : Color) (sq : Square) (b : Board) (target : Square) :
    List Move :=
  if !target.isValid then []
  else match b.pieceAt target with
    | some occupant => if occupant.color ≠ color then addMove backRank sq target else []
    | none => if some target = b.enPassant then [⟨sq, target, none⟩] else []

def pawnMoves (color : Color) (sq : Square) (b : Board) : List Move :=
  let direction : ℤ := if color = .white then 1 else -1
  let startRank : ℤ := if color = .white then 1 else 6
  let backRank : ℤ := if color = .white then 7 else 0
  pawnPushes direction startRank backRank sq b ++ ([-1, 1] : List ℤ).flatMap fun off =>
    pawnCapture backRank color sq b ⟨sq.file + off, sq.rank + direction⟩

def steppingMoves (offsets : List (ℤ × ℤ)) (color : Color) (sq : Square) (b : Board) : List Move :=
  offsets.flatMap fun d =>
    let target := sq.shift d 1
    if !target.isValid then []
    else match b.pieceAt target with
      | some occupant => if occupant.color = color then [] else [⟨sq, target, none⟩]
      | none => [⟨sq, target, none⟩]

/-- The inner loop of `sliding_moves` from `target` on. -/
def slidingMovesLoop (d : ℤ × ℤ) (color : Color) (sq : Square) (b : Board) : ℕ → Square → List Move
  | 0, _ => []
  | fuel + 1, target =>
    if target.isValid then
      match b.pieceAt target with
      | some occupant => if occupant.color ≠ color then [⟨sq, target, none⟩] else []
      | none => ⟨sq, target, none⟩ :: slidingMovesLoop d color sq b fuel (target.shift d 1)
    else []

def slidingMoves (directions : List (ℤ × ℤ)) (color : Color) (sq : Square) (b : Board) : List Move :=
  directions.flatMap fun d => slidingMovesLoop d color sq b raySteps (sq.shift d 1)

def kingMoves (color : Color) (sq : Square) (b : Board) : List Move :=
  let rank : ℤ := if color = .white then 0 else 7
  let free (file : ℤ) : Bool := (b.pieceAt ⟨file, rank⟩).isNone
  let safe (file : ℤ) : Bool := !isSquareAttacked ⟨file, rank⟩ color.opposite b
  steppingMoves kingOffsets color sq b ++
    if isSquareAttacked sq color.opposite b then []
    else
      (if b.canCastleK color && free 5 && free 6 && safe 5 && safe 6 then
        [⟨sq, ⟨6, rank⟩, none⟩]
      else []) ++
      (if b.canCastleQ color && free 3 && free 2 && free 1 && safe 3 && safe 2 then
        [⟨sq, ⟨2, rank⟩, none⟩]
      else [])

def pseudoLegalMoves (piece : Piece) (sq : Square) (b : Board) : List Move :=
  match piece.pieceType with
  | .pawn => pawnMoves piece.color sq b
  | .knight => steppingMoves knightOffsets piece.color sq b
  | .bishop => slidingMoves diagonalDirs piece.color sq b
  | .rook => slidingMoves straightDirs piece.color sq b
  | .queen => slidingMoves diagonalDirs piece.color sq b ++ slidingMoves straightDirs piece.color sq b
  | .king => kingMoves piece.color sq b

def revokeCastlingRightIfCornerTouched (sq : Square) (b : Board) : Board :=
  match sq.file, sq.rank with
  | 0, 0 => { b with whiteCastleQ := false }
  | 7, 0 => { b with whiteCastleK := false }
  | 0, 7 => { b with blackCastleQ := false }
  | 7, 7 => { b with blackCastleK := false }
  | _, _ => b

/-- What `apply` does to rights, the en-passant square and the side to move. -/
def finishMove (piece : Piece) (m : Move) (b : Board) : Board :=
  let b := if piece.pieceType = .king then
    (b.setCastleK false piece.color).setCastleQ false piece.color else b
  let b := revokeCastlingRightIfCornerTouched m.source b
  let b := revokeCastlingRightIfCornerTouched m.target b
  { b with
    enPassant :=
      if piece.pieceType = .pawn ∧ |m.target.rank - m.source.rank| = 2 then
        some ⟨m.source.file, (m.source.rank + m.target.rank).tdiv 2⟩
      else none
    sideToMove := b.sideToMove.opposite }

def apply (m : Move) (b : Board) : Option Board :=
  match b.pieceAt m.source with
  | none => some b
  | some piece => do
    let isEnPassantCapture := decide (piece.pieceType = .pawn) &&
      decide (some m.target = b.enPassant) && (b.pieceAt m.target).isNone
    let isCastle := decide (piece.pieceType = .king) && decide (|m.target.file - m.source.file| = 2)
    let rook : Option Piece := some ⟨.rook, piece.color⟩
    let r ← b.setPiece none m.source
    let r ← r.setPiece (some ⟨m.promotion.getD piece.pieceType, piece.color⟩) m.target
    let r ← if isEnPassantCapture then r.setPiece none ⟨m.target.file, m.source.rank⟩ else some r
    let r ←
      if isCastle then
        if m.target.file = 6 then do
          let r ← r.setPiece none ⟨7, m.source.rank⟩
          r.setPiece rook ⟨5, m.source.rank⟩
        else do
          let r ← r.setPiece none ⟨0, m.source.rank⟩
          r.setPiece rook ⟨3, m.source.rank⟩
      else some r
    return finishMove piece m r

/-- The filter of `legal_moves`. -/
def keepSafe (b : Board) : List Move → Option (List Move)
  | [] => some []
  | m :: ms => do
    let resulting ← apply m b
    let rest ← keepSafe b ms
    return if isKingInCheck b.sideToMove resulting then rest else m :: rest

/-- The moves of the side to move that may leave its king in check. -/
def sideMoves (b : Board) : List Move :=
  allSquares.flatMap fun sq =>
    match b.pieceAt sq with
    | some piece => if piece.color = b.sideToMove then pseudoLegalMoves piece sq b else []
    | none => []

def legalMoves (b : Board) : Option (List Move) := keepSafe b (sideMoves b)

def normalizingPromotion (m : Move) (b : Board) : Move :=
  if m.promotion.isSome then m
  else match b.pieceAt m.source with
    | some piece =>
      if piece.pieceType = .pawn ∧ m.target.rank = (if piece.color = .white then 7 else 0) then
        { m with promotion := some .queen }
      else m
    | none => m

def isLegal (m : Move) (b : Board) : Option Bool := do
  let moves ← legalMoves b
  return moves.any fun x => x = normalizingPromotion m b

def isCheckmate (b : Board) : Option Bool := do
  let moves ← legalMoves b
  return isKingInCheck b.sideToMove b && moves.isEmpty

def isStalemate (b : Board) : Option Bool := do
  let moves ← legalMoves b
  return !isKingInCheck b.sideToMove b && moves.isEmpty

def isLightSquare (sq : Square) : Bool := (sq.file + sq.rank) % 2 = 1

/-- The squares of one side's bishops and knights. -/
def minors (color : Color) (b : Board) : List Square :=
  allSquares.filter fun sq =>
    b.pieceAt sq = some ⟨.bishop, color⟩ || b.pieceAt sq = some ⟨.knight, color⟩

def isInsufficientMaterial (b : Board) : Bool :=
  let heavy (p : Piece) : Bool := p.pieceType = .pawn || p.pieceType = .rook || p.pieceType = .queen
  if allSquares.any fun sq => (b.pieceAt sq).any heavy then false
  else match minors .white b, minors .black b with
    | [], [] | [_], [] | [], [_] => true
    | [white], [black] =>
      if (b.pieceAt white).map Piece.pieceType ≠ some .bishop ∨
          (b.pieceAt black).map Piece.pieceType ≠ some .bishop then false
      else isLightSquare white = isLightSquare black
    | _, _ => false

end KaChatIndexer.ChessEngine
