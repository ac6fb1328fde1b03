import Mathlib.Data.Int.Basic
import Mathlib.Tactic

/-!
# Colours, men and squares

Files and ranks count from 0 and may leave the board, as the offset arithmetic of the engine does.
-/
namespace KaChatIndexer.ChessPieces

scoped instance neZero_eight : NeZero 8 := ⟨by decide⟩

inductive Color
  | white | black
  deriving DecidableEq, Repr

def Color.opposite : Color → Color
  | .white => .black
  | .black => .white

@[simp] theorem Color.opposite_opposite (c : Color) : c.opposite.opposite = c := by cases c <;> rfl

theorem Color.opposite_ne (c : Color) : c.opposite ≠ c := by cases c <;> decide

theorem Color.eq_opposite_of_ne {c d : Color} (h : d ≠ c) : d = c.opposite := by
  cases c <;> cases d <;> first | rfl | exact absurd rfl h

inductive PieceType
  | pawn | knight | bishop | rook | queen | king
  deriving DecidableEq, Repr

structure Piece where
  pieceType : PieceType
  color : Color
  deriving DecidableEq, Repr

structure Square where
  file : ℤ
  rank : ℤ
  deriving DecidableEq, Repr

def Square.isValid (sq : Square) : Bool :=
  decide (0 ≤ sq.file) && decide (sq.file ≤ 7) && decide (0 ≤ sq.rank) && decide (sq.rank ≤ 7)

theorem Square.isValid_iff {sq : Square} :
    sq.isValid = true ↔ 0 ≤ sq.file ∧ sq.file ≤ 7 ∧ 0 ≤ sq.rank ∧ sq.rank ≤ 7 := by
  simp [Square.isValid, and_assoc]

theorem Square.ext_iff' {s t : Square} : s = t ↔ s.file = t.file ∧ s.rank = t.rank := by
  cases s
  cases t
  simp

/-- The square `k` steps away in a direction. -/
def Square.shift (sq : Square) (d : ℤ × ℤ) (k : ℤ) : Square := ⟨sq.file + k * d.1, sq.rank + k * d.2⟩

/-- A move as played: from, to and the piece a pawn becomes. -/
structure Move where
  source : Square
  target : Square
  promotion : Option PieceType
  deriving DecidableEq, Repr

end KaChatIndexer.ChessPieces
