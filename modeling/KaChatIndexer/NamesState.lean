import Mathlib.Data.Finmap
import KaChatIndexer.NamesCodec

/-!
# Registry states

The four covenant states with their on-chain encodings, the tracked UTXOs that carry them, and
the name rules.
-/
namespace KaChatIndexer.NamesState
open ByteStrings NamesCodec

structure GapState where
  lo : Bytes32
  hi : Bytes32
  deriving DecidableEq

structure NameState where
  key : Bytes32
  name : Bytes32
  owner : Bytes32
  price : Int64
  periodStart : Int64
  expiresAt : Int64
  deriving DecidableEq

/-- An offer; `seller = none` is a v2 offer. -/
structure OfferState where
  key : Bytes32
  buyer : Bytes32
  seller : Option Bytes32
  refundAfter : Int64
  deriving DecidableEq

/-- A registry v3 price shard: sompi per period for names of 1, 2, 3, 4 and 5+ bytes. -/
structure PriceState where
  shard : Int64
  authority : Bytes32
  prices : List.Vector Int64 5
  deriving DecidableEq

def GapState.encode (s : GapState) : Bytes :=
  [0x20] ++ s.lo.toList ++ [0x20] ++ s.hi.toList

def NameState.encode (s : NameState) : Bytes :=
  [0x20] ++ s.key.toList ++ [0x20] ++ s.name.toList ++ [0x20] ++ s.owner.toList ++
    [0x08] ++ num8Encode s.price ++ [0x08] ++ num8Encode s.periodStart ++
    [0x08] ++ num8Encode s.expiresAt

def OfferState.encode (s : OfferState) : Bytes :=
  match s.seller with
  | none => [0x20] ++ s.key.toList ++ [0x20] ++ s.buyer.toList ++
      [0x08] ++ num8Encode s.refundAfter
  | some seller => [0x20] ++ s.key.toList ++ [0x20] ++ s.buyer.toList ++
      [0x20] ++ seller.toList ++ [0x08] ++ num8Encode s.refundAfter

def PriceState.encode (s : PriceState) : Bytes :=
  [0x08] ++ num8Encode s.shard ++ [0x20] ++ s.authority.toList ++
    s.prices.toList.flatMap fun p => 0x08 :: num8Encode p

def take32 (b : Bytes) (i : ℕ) : Option Bytes32 := tryInto 32 ((b.drop i).take 32)

def take8 (b : Bytes) (i : ℕ) : Option (List.Vector UInt8 8) := tryInto 8 ((b.drop i).take 8)

def GapState.decode (state : Bytes) : Option GapState :=
  if state.length ≠ 66 ∨ state[0]? ≠ some 0x20 ∨ state[33]? ≠ some 0x20 then none
  else do some ⟨← take32 state 1, ← take32 state 34⟩

def NameState.decode (state : Bytes) : Option NameState :=
  if state.length ≠ 126 ∨ state[0]? ≠ some 0x20 ∨ state[33]? ≠ some 0x20 ∨
      state[66]? ≠ some 0x20 ∨ state[99]? ≠ some 0x08 ∨ state[108]? ≠ some 0x08 ∨
      state[117]? ≠ some 0x08 then none
  else do
    some ⟨← take32 state 1, ← take32 state 34, ← take32 state 67, num8Decode (← take8 state 100),
      num8Decode (← take8 state 109), num8Decode (← take8 state 118)⟩

/-- A 75-byte (v2) or 108-byte (v3) offer state. -/
def OfferState.decode (state : Bytes) : Option OfferState :=
  if state.length = 75 ∧ state[0]? = some 0x20 ∧ state[33]? = some 0x20 ∧
      state[66]? = some 0x08 then do
    some ⟨← take32 state 1, ← take32 state 34, none, num8Decode (← take8 state 67)⟩
  else if state.length = 108 ∧ state[0]? = some 0x20 ∧ state[33]? = some 0x20 ∧
      state[66]? = some 0x20 ∧ state[99]? = some 0x08 then do
    some ⟨← take32 state 1, ← take32 state 34, some (← take32 state 67),
      num8Decode (← take8 state 100)⟩
  else none

theorem five_length (a b c d e : Int64) : [a, b, c, d, e].length = 5 := rfl

def PriceState.decode (state : Bytes) : Option PriceState :=
  if state.length ≠ 87 ∨ state[0]? ≠ some 0x08 ∨ state[9]? ≠ some 0x20 then none
  else do
    let price (t : ℕ) : Option Int64 :=
      if state[42 + t * 9]? ≠ some 0x08 then none
      else (take8 state (42 + t * 9 + 1)).map num8Decode
    let prices : List.Vector Int64 5 :=
      ⟨[← price 0, ← price 1, ← price 2, ← price 3, ← price 4], five_length ..⟩
    some ⟨num8Decode (← take8 state 1), ← take32 state 10, prices⟩

/-- The name without its padding, as text. -/
def NameState.nameStr (s : NameState) : Bytes := fromUtf8Lossy (s.name.toList.takeWhile (· ≠ 0))

/-- A name zero-padded to 32 bytes. -/
def padName (name : Bytes) : Bytes32 :=
  ⟨name.take 32 ++ List.replicate (32 - name.length) 0, by simp; omega⟩

def isNameByte (c : UInt8) : Bool :=
  (0x61 ≤ c && c ≤ 0x7a) || (0x30 ≤ c && c ≤ 0x39) || c == 0x2d

/-- `a-z 0-9 -`, 1 to 32 bytes, no hyphen at either end. -/
def isValidName (name : Bytes) : Bool :=
  if name = [] ∨ 32 < name.length then false
  else if name.head? = some 0x2d ∨ name.getLast? = some 0x2d then false
  else name.all isNameByte

/-- A transaction outpoint: `(txid, output index)`. -/
abbrev Outpoint := Bytes32 × UInt32

/-- One tracked registry UTXO. -/
inductive Tracked
  | gap (s : GapState)
  | name (s : NameState)
  | offer (s : OfferState)
  | shard (s : PriceState)
  deriving DecidableEq

/-- The `HashMap<Outpoint, Tracked>` of live UTXOs. -/
abbrev UtxoMap := Finmap fun _ : Outpoint => Tracked

def Tracked.isOffer : Tracked → Bool
  | .offer _ => true
  | _ => false

end KaChatIndexer.NamesState
