import KaChatIndexer.ByteStrings

/-!
# Signature scripts and state integers of the names registry

The byte-level half of the follower: `num8` integers inside states, minimal pushes and script
numbers in signature scripts. Integer arithmetic is that of the release build, in which shift
counts are taken modulo 64 and `i64` operations wrap.
-/
namespace KaChatIndexer.NamesCodec
open ByteStrings

def num8Encode (v : Int64) : Bytes :=
  let out := leBytes 8 v.toInt.natAbs
  if v < 0 then out.modify 7 (· ||| 0x80) else out

def num8Decode (b : List.Vector UInt8 8) : Int64 :=
  let negative : Bool := b.get 7 &&& 0x80 ≠ 0
  let mag := Int64.ofNat (ofLeBytes (b.toList.modify 7 (· &&& 0x7f)))
  if negative then -mag else mag

/-- One token of a signature script: a number op or a data push. -/
inductive Push
  | num (n : Int64)
  | data (d : Bytes)
  deriving DecidableEq

/-- `byte as i64`. -/
def byteAsI64 (b : UInt8) : Int64 := Int64.ofNat b.toNat

/-- Little-endian sign-magnitude script number: the sign is the top bit of the last byte. -/
def decodeScriptNumber (b : Bytes) : Int64 :=
  match b.getLast? with
  | none => 0
  | some last =>
    let result := b.zipIdx.foldl (fun r (byte, i) => r ||| (byteAsI64 byte <<< Int64.ofNat (8 * i))) 0
    if last &&& 0x80 ≠ 0 then
      let mask := (0x80 : Int64) <<< Int64.ofNat (8 * (b.length - 1))
      Int64.neg (result &&& ~~~mask)
    else result

/-- The bytes of a data push, or `none` for a number op. -/
def Push.bytes? : Push → Option Bytes
  | .data d => some d
  | .num _ => none

def Push.asI64 : Push → Option Int64
  | .num n => some n
  | .data d => some (decodeScriptNumber d)

/-- The loop of `parse_pushes` on what is left of the script. Every token takes at least its
opcode byte, so the length of the script is fuel enough (`parsePushesFrom_fuel`). -/
def parsePushesFrom : ℕ → Bytes → Option (List Push)
  | _, [] => some []
  | 0, _ :: _ => none
  | fuel + 1, op :: rest =>
    let push (n : ℕ) (rest : Bytes) : Option (List Push) :=
      (slice n rest).bind fun (d, rest) => (parsePushesFrom fuel rest).map (.data d :: ·)
    let number (n : Int64) : Option (List Push) := (parsePushesFrom fuel rest).map (.num n :: ·)
    if op = 0x00 then number 0
    else if op = 0x4f then number (-1)
    else if 0x51 ≤ op ∧ op ≤ 0x60 then number (byteAsI64 (op - 0x50))
    else if 0x01 ≤ op ∧ op ≤ 0x4b then push op.toNat rest
    else if op = 0x4c then (slice 1 rest).bind fun (n, rest) => push (ofLeBytes n) rest
    else if op = 0x4d then (slice 2 rest).bind fun (n, rest) => push (ofLeBytes n) rest
    else if op = 0x4e then (slice 4 rest).bind fun (n, rest) => push (ofLeBytes n) rest
    else none

/-- Parse a script that is only pushes; `none` on any other opcode or a truncated push. -/
def parsePushes (script : Bytes) : Option (List Push) := parsePushesFrom script.length script

structure SigScript where
  args : List Push
  dispatchTag : Tag
  redeem : Bytes
  deriving DecidableEq

/-- Split a signature script into args, dispatch tag and redeem: the last two pushes are the
tag and the redeem. -/
def decodeSigScript (script : Bytes) : Option SigScript :=
  match (parsePushes script).map List.reverse with
  | some (.data redeem :: .data tag :: args) =>
      (tryInto 4 tag).map fun tag => ⟨args.reverse, tag, redeem⟩
  | _ => none

/-- An argument read as a 32-byte array. -/
def SigScript.argBytes32 (sig : SigScript) (k : ℕ) : Option Bytes32 :=
  (sig.args[k]?.bind Push.bytes?).bind (tryInto 32)

def SigScript.argBytes (sig : SigScript) (k : ℕ) : Option Bytes := sig.args[k]?.bind Push.bytes?

def SigScript.argI64 (sig : SigScript) (k : ℕ) : Option Int64 := sig.args[k]?.bind Push.asI64

theorem ofLeBytes_leBytes {n v : ℕ} (h : v < 256 ^ n) : ofLeBytes (leBytes n v) = v := by
  induction n generalizing v with
  | zero => simp [leBytes, ofLeBytes]; omega
  | succ n ih =>
    have hrest : v / 256 < 256 ^ n := by
      rw [Nat.div_lt_iff_lt_mul (by decide)]
      rwa [pow_succ] at h
    simp only [leBytes, ofLeBytes, ih hrest, UInt8.toNat_ofNat']
    omega

@[simp] theorem num8Encode_length (v : Int64) : (num8Encode v).length = 8 := by
  unfold num8Encode
  dsimp only
  split <;> simp [leBytes_length]

/-- What the sign bit does to a byte without it. -/
theorem signBit {c : UInt8} (h : c &&& 0x80 = 0) :
    (c ||| 0x80) &&& 0x80 ≠ 0 ∧ (c ||| 0x80) &&& 0x7f = c ∧ c &&& 0x7f = c := by
  obtain ⟨b⟩ := c
  revert b
  decide

theorem signBit_clear {n : ℕ} (h : n < 128) : UInt8.ofNat n &&& 0x80 = 0 := by
  have hbyte : ∀ b : BitVec 8, b.toNat < 128 → (⟨b⟩ : UInt8) &&& 0x80 = 0 := by decide
  refine hbyte (UInt8.ofNat n).toBitVec ?_
  simp
  omega

theorem leBytes_last (n : ℕ) : leBytes 8 n = leBytes 7 n ++ [UInt8.ofNat (n / 256 ^ 7)] := by
  simp [leBytes, Nat.div_div_eq_div_mul]

theorem modify_last (l : Bytes) (c : UInt8) (f : UInt8 → UInt8) :
    (l ++ [c]).modify l.length f = l ++ [f c] := by
  induction l with
  | nil => rfl
  | cons d l ih => simp [ih]

theorem num8Decode_magnitude {n : ℕ} {b : List.Vector UInt8 8} {c : UInt8}
    (hb : b.toList = leBytes 7 n ++ [c]) (hc : c &&& 0x7f = UInt8.ofNat (n / 256 ^ 7))
    (hn : n < 2 ^ 63) :
    num8Decode b = if c &&& 0x80 ≠ 0 then -(Int64.ofNat n) else Int64.ofNat n := by
  have hlast : b.get 7 = c := by
    have hget : b.get 7 = b.toList.get ⟨7, by simp⟩ := by simp [List.Vector.get_eq_get_toList]
    rw [hget]
    simp [hb, leBytes_length]
  have hmodify := modify_last (leBytes 7 n) c (· &&& 0x7f)
  rw [leBytes_length] at hmodify
  unfold num8Decode
  rw [hlast, hb, hmodify, hc, ← leBytes_last, ofLeBytes_leBytes (by omega)]
  simp

/-- Every integer but the least has its own encoding; that of the least reads as zero. -/
theorem num8Decode_encode {v : Int64} {b : List.Vector UInt8 8} (hb : b.toList = num8Encode v) :
    num8Decode b = if v = Int64.minValue then 0 else v := by
  split
  · next h =>
    subst h
    rw [show b = ⟨num8Encode Int64.minValue, num8Encode_length _⟩ from Subtype.ext hb]
    decide
  next hmin =>
  set n := v.toInt.natAbs with hn
  have hne : v.toInt ≠ -2 ^ 63 := fun h => hmin (Int64.toInt_inj.mp h)
  have hge := v.le_toInt
  have hbound : n < 2 ^ 63 := by
    have hlt := v.toInt_lt
    omega
  have hclear : UInt8.ofNat (n / 256 ^ 7) &&& 0x80 = 0 := signBit_clear (by omega)
  obtain ⟨hset, hmask, hkeep⟩ := signBit hclear
  have hmodify := modify_last (leBytes 7 n) (UInt8.ofNat (n / 256 ^ 7)) (· ||| 0x80)
  rw [leBytes_length, ← leBytes_last] at hmodify
  unfold num8Encode at hb
  dsimp only at hb
  rw [← hn] at hb
  split at hb
  · next hneg =>
    have hsign : v.toInt < 0 := Int64.lt_iff_toInt_lt.mp hneg
    rw [num8Decode_magnitude (hb.trans hmodify) hmask hbound, if_pos hset, ← Int64.toInt_inj,
      Int64.toInt_neg, Int64.toInt_ofNat_of_lt hbound, Int.bmod_def]
    omega
  · next hpos =>
    have hsign : 0 ≤ v.toInt := not_lt.mp fun h => hpos (Int64.lt_iff_toInt_lt.mpr h)
    rw [num8Decode_magnitude (hb.trans (leBytes_last n)) hkeep hbound, if_neg (not_not.mpr hclear),
      ← Int64.toInt_inj, Int64.toInt_ofNat_of_lt hbound]
    omega

theorem slice_rest_length {n : ℕ} {b : Bytes} {x : Bytes × Bytes} (h : slice n b = some x) :
    x.2.length ≤ b.length := by
  unfold slice at h
  split at h
  · cases h
    simp
  · cases h

/-- More fuel than bytes changes nothing: the loop stops at the end of the script. -/
theorem parsePushesFrom_fuel (fuel : ℕ) (b : Bytes) (h : b.length ≤ fuel) :
    parsePushesFrom fuel b = parsePushesFrom b.length b := by
  induction hn : b.length using Nat.strong_induction_on generalizing fuel b with
  | _ n ih =>
    subst hn
    cases b with
    | nil => cases fuel <;> rfl
    | cons op rest =>
      cases fuel with
      | zero => simp at h
      | succ fuel =>
        have hrest : rest.length ≤ fuel := by simpa using h
        have heq : ∀ r : Bytes, r.length ≤ rest.length →
            parsePushesFrom fuel r = parsePushesFrom rest.length r := by
          intro r hr
          rw [ih r.length (by simp; omega) fuel r (by omega) rfl]
          exact (ih r.length (by simp; omega) rest.length r hr rfl).symm
        have hpush : ∀ (n : ℕ) (r : Bytes), r.length ≤ rest.length →
            ((slice n r).bind fun x => (parsePushesFrom fuel x.2).map (Push.data x.1 :: ·)) =
              (slice n r).bind fun x => (parsePushesFrom rest.length x.2).map (Push.data x.1 :: ·) := by
          intro n r hr
          cases hs : slice n r with
          | none => rfl
          | some x =>
            have := slice_rest_length hs
            simp only [Option.bind_some]
            rw [heq x.2 (by omega)]
        have hsized : ∀ k : ℕ, ((slice k rest).bind fun y => (slice (ofLeBytes y.1) y.2).bind
              fun x => (parsePushesFrom fuel x.2).map (Push.data x.1 :: ·)) =
            (slice k rest).bind fun y => (slice (ofLeBytes y.1) y.2).bind
              fun x => (parsePushesFrom rest.length x.2).map (Push.data x.1 :: ·) := by
          intro k
          cases hs : slice k rest with
          | none => rfl
          | some y => exact hpush _ _ (slice_rest_length hs)
        simp only [parsePushesFrom, List.length_cons]
        rw [heq rest le_rfl, hpush _ rest le_rfl, hsized 1, hsized 2, hsized 4]

end KaChatIndexer.NamesCodec
