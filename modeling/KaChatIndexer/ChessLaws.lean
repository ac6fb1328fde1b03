import KaChatIndexer.ChessPieces

/-!
# The laws of chess

Positions of a game with men that remember whether they have moved, what a man attacks, and the
moves the laws allow: a man goes where it attacks or a pawn advances, a pawn takes en passant right
after the double step, king and rook castle before either has moved. No move may leave the own king
attacked.
-/
namespace KaChatIndexer.ChessLaws
open ChessPieces

structure Man where
  piece : Piece
  moved : Bool
  deriving DecidableEq

abbrev Men := Square → Option Man

/-- The men on the board, whose turn it is, and the move just played. -/
structure Position where
  men : Men
  turn : Color
  last : Option Move

def forward : Color → ℤ
  | .white => 1
  | .black => -1

theorem forward_cases (c : Color) : forward c = 1 ∨ forward c = -1 := by cases c <;> simp [forward]

theorem abs_forward (c : Color) : |forward c| = 1 := by cases c <;> rfl

def homeRank : Color → ℤ
  | .white => 0
  | .black => 7

def lastRank (c : Color) : ℤ := homeRank c.opposite

def pieceOn (men : Men) (s : Square) : Option Piece := (men s).map Man.piece

/-- The squares strictly between two squares of a line. -/
def Between (s t u : Square) : Prop :=
  ∃ k : ℤ, 0 < k ∧ k < max |t.file - s.file| |t.rank - s.rank| ∧
    u = s.shift ((t.file - s.file).sign, (t.rank - s.rank).sign) k

def Clear (men : Men) (s t : Square) : Prop := ∀ u, Between s t u → men u = none

def Diagonal (s t : Square) : Prop := s ≠ t ∧ |t.file - s.file| = |t.rank - s.rank|

def Straight (s t : Square) : Prop := s ≠ t ∧ (t.file = s.file ∨ t.rank = s.rank)

def Attacks (men : Men) (p : Piece) (s t : Square) : Prop :=
  match p.pieceType with
  | .pawn => t.rank = s.rank + forward p.color ∧ |t.file - s.file| = 1
  | .knight => |t.file - s.file| = 1 ∧ |t.rank - s.rank| = 2 ∨
      |t.file - s.file| = 2 ∧ |t.rank - s.rank| = 1
  | .bishop => Diagonal s t ∧ Clear men s t
  | .rook => Straight s t ∧ Clear men s t
  | .queen => (Diagonal s t ∨ Straight s t) ∧ Clear men s t
  | .king => s ≠ t ∧ |t.file - s.file| ≤ 1 ∧ |t.rank - s.rank| ≤ 1

/-- A man of the colour attacks the square. -/
def Attacked (men : Men) (c : Color) (t : Square) : Prop :=
  ∃ s p, pieceOn men s = some p ∧ p.color = c ∧ Attacks men p s t

def InCheck (men : Men) (c : Color) : Prop :=
  ∃ k, pieceOn men k = some ⟨.king, c⟩ ∧ Attacked men c.opposite k

/-- One step ahead onto an empty square, or two from where pawns start. -/
def Advances (men : Men) (c : Color) (s t : Square) : Prop :=
  t.file = s.file ∧ men t = none ∧
    (t.rank = s.rank + forward c ∨
      s.rank = homeRank c + forward c ∧ t.rank = s.rank + 2 * forward c ∧
        men ⟨s.file, s.rank + forward c⟩ = none)

def Goes (men : Men) (p : Piece) (s t : Square) : Prop :=
  if p.pieceType = .pawn then
    Advances men p.color s t ∨ Attacks men p s t ∧ men t ≠ none
  else Attacks men p s t

/-- A pawn becomes one of four pieces on the last rank, and only there. -/
def Promotes (p : Piece) (t : Square) (promo : Option PieceType) : Prop :=
  if p.pieceType = .pawn ∧ t.rank = lastRank p.color then
    promo = some .queen ∨ promo = some .rook ∨ promo = some .bishop ∨ promo = some .knight
  else promo = none

/-- The man leaves `s` and stands on `t` in place of what was there. -/
def relocate (men : Men) (s t : Square) (man : Man) : Men :=
  Function.update (Function.update men s none) t (some man)

/-- The square over which the pawn that just moved made its double step. -/
def PassedOver (pos : Position) (t : Square) : Prop :=
  ∃ m, pos.last = some m ∧ pieceOn pos.men m.target = some ⟨.pawn, pos.turn.opposite⟩ ∧
    |m.target.rank - m.source.rank| = 2 ∧ t.file = m.source.file ∧
    2 * t.rank = m.source.rank + m.target.rank

inductive Wing
  | king | queen
  deriving DecidableEq

namespace Wing

def corner : Wing → ℤ
  | .king => 7
  | .queen => 0

def kingTo : Wing → ℤ
  | .king => 6
  | .queen => 2

def rookTo : Wing → ℤ
  | .king => 5
  | .queen => 3

/-- The files between king and rook. -/
def between : Wing → List ℤ
  | .king => [5, 6]
  | .queen => [3, 2, 1]

end Wing

/-- The king's walk in castling: where it stands, what it crosses and where it arrives. -/
def Wing.walk (w : Wing) : List ℤ := [4, w.rookTo, w.kingTo]

/-- King and rook change places, as men that have moved. -/
def castled (men : Men) (c : Color) (w : Wing) : Men :=
  relocate (relocate men ⟨4, homeRank c⟩ ⟨w.kingTo, homeRank c⟩ ⟨⟨.king, c⟩, true⟩)
    ⟨w.corner, homeRank c⟩ ⟨w.rookTo, homeRank c⟩ ⟨⟨.rook, c⟩, true⟩

structure MayCastle (men : Men) (c : Color) (w : Wing) : Prop where
  king : men ⟨4, homeRank c⟩ = some ⟨⟨.king, c⟩, false⟩
  rook : men ⟨w.corner, homeRank c⟩ = some ⟨⟨.rook, c⟩, false⟩
  empty : ∀ f ∈ w.between, men ⟨f, homeRank c⟩ = none
  safe : ∀ f ∈ w.walk, ¬ Attacked men c.opposite ⟨f, homeRank c⟩

/-- A move by the rules of its man, and the position after it. -/
inductive Plays (pos : Position) : Move → Position → Prop
  | goes {s t : Square} {promo : Option PieceType} {man : Man} (hman : pos.men s = some man)
      (hturn : man.piece.color = pos.turn) (hboard : t.isValid)
      (hown : ∀ p, pieceOn pos.men t = some p → p.color ≠ pos.turn)
      (hgoes : Goes pos.men man.piece s t) (hpromo : Promotes man.piece t promo) :
      Plays pos ⟨s, t, promo⟩
        ⟨relocate pos.men s t ⟨⟨promo.getD man.piece.pieceType, pos.turn⟩, true⟩,
          pos.turn.opposite, some ⟨s, t, promo⟩⟩
  | enPassant {s t : Square} {last : Move} (hpawn : pieceOn pos.men s = some ⟨.pawn, pos.turn⟩)
      (hlast : pos.last = some last) (hpassed : PassedOver pos t)
      (hattacks : Attacks pos.men ⟨.pawn, pos.turn⟩ s t) :
      Plays pos ⟨s, t, none⟩
        ⟨Function.update (relocate pos.men s t ⟨⟨.pawn, pos.turn⟩, true⟩) last.target none,
          pos.turn.opposite, some ⟨s, t, none⟩⟩
  | castles (w : Wing) (hmay : MayCastle pos.men pos.turn w) :
      Plays pos ⟨⟨4, homeRank pos.turn⟩, ⟨w.kingTo, homeRank pos.turn⟩, none⟩
        ⟨castled pos.men pos.turn w, pos.turn.opposite,
          some ⟨⟨4, homeRank pos.turn⟩, ⟨w.kingTo, homeRank pos.turn⟩, none⟩⟩

/-- The laws allow the move, and `pos'` is the position after it. -/
def Legal (pos : Position) (m : Move) (pos' : Position) : Prop :=
  Plays pos m pos' ∧ ¬ InCheck pos'.men pos.turn

def officer : ℤ → Option PieceType
  | 0 => some .rook
  | 1 => some .knight
  | 2 => some .bishop
  | 3 => some .queen
  | 4 => some .king
  | 5 => some .bishop
  | 6 => some .knight
  | 7 => some .rook
  | _ => none

def startPiece (s : Square) : Option Piece :=
  if !s.isValid then none
  else if s.rank = 0 then (officer s.file).map (⟨·, .white⟩)
  else if s.rank = 1 then some ⟨.pawn, .white⟩
  else if s.rank = 6 then some ⟨.pawn, .black⟩
  else if s.rank = 7 then (officer s.file).map (⟨·, .black⟩)
  else none

def start : Position where
  men s := (startPiece s).map (⟨·, false⟩)
  turn := .white
  last := none

/-- The games of chess: the moves played and the position they lead to. -/
inductive Game : List Move → Position → Prop
  | start : Game [] start
  | move {ms : List Move} {pos pos' : Position} {m : Move} (h : Game ms pos)
      (hlegal : Legal pos m pos') : Game (ms ++ [m]) pos'

end KaChatIndexer.ChessLaws
