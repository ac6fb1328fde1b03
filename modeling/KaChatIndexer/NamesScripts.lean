import Mathlib.Data.Nat.Bitwise
import Mathlib.Data.Nat.Digits.Lemmas
import KaChatIndexer.NamesLayouts
import KaChatIndexer.TokenStreams

/-!
# Signature scripts, written and read

The push forms of a script, the integers and byte strings that are pushed as arguments, and what
reading a script gives back of them.
-/
namespace KaChatIndexer.NamesScripts
open ByteStrings NamesCodec NamesLayouts TokenStreams

/-! ## Push forms -/

/-- The complete push opcodes and what each pushes. -/
inductive PushForm : Bytes → Push → Prop
  | zero : PushForm [0x00] (.num 0)
  | negativeOne : PushForm [0x4f] (.num (-1))
  | small (op : UInt8) (hop : 0x51 ≤ op ∧ op ≤ 0x60) : PushForm [op] (.num (byteAsI64 (op - 0x50)))
  | direct (op : UInt8) (d : Bytes) (hop : 0x01 ≤ op ∧ op ≤ 0x4b) (hd : d.length = op.toNat) :
      PushForm (op :: d) (.data d)
  | data1 (n d : Bytes) (hn : n.length = 1) (hd : d.length = ofLeBytes n) :
      PushForm (0x4c :: (n ++ d)) (.data d)
  | data2 (n d : Bytes) (hn : n.length = 2) (hd : d.length = ofLeBytes n) :
      PushForm (0x4d :: (n ++ d)) (.data d)
  | data4 (n d : Bytes) (hn : n.length = 4) (hd : d.length = ofLeBytes n) :
      PushForm (0x4e :: (n ++ d)) (.data d)

def nextData (n : ℕ) (rest : Bytes) : Option (Push × Bytes) :=
  (slice n rest).map fun (d, rest) => (.data d, rest)

def nextSized (k : ℕ) (rest : Bytes) : Option (Push × Bytes) :=
  (slice k rest).bind fun (n, rest) => nextData (ofLeBytes n) rest

/-- One turn of the loop of `parse_pushes`. -/
def nextPush : Bytes → Option (Push × Bytes)
  | [] => none
  | op :: rest =>
    if op = 0x00 then some (.num 0, rest)
    else if op = 0x4f then some (.num (-1), rest)
    else if 0x51 ≤ op ∧ op ≤ 0x60 then some (.num (byteAsI64 (op - 0x50)), rest)
    else if 0x01 ≤ op ∧ op ≤ 0x4b then nextData op.toNat rest
    else if op = 0x4c then nextSized 1 rest
    else if op = 0x4d then nextSized 2 rest
    else if op = 0x4e then nextSized 4 rest
    else none

theorem nextData_bind (fuel n : ℕ) (rest : Bytes) :
    ((nextData n rest).bind fun (t, rest) => (parsePushesFrom fuel rest).map (t :: ·)) =
      (slice n rest).bind fun (d, rest) => (parsePushesFrom fuel rest).map (.data d :: ·) := by
  unfold nextData
  cases slice n rest <;> rfl

theorem nextSized_bind (fuel k : ℕ) (rest : Bytes) :
    ((nextSized k rest).bind fun (t, rest) => (parsePushesFrom fuel rest).map (t :: ·)) =
      (slice k rest).bind fun (n, rest) => (slice (ofLeBytes n) rest).bind
        fun (d, rest) => (parsePushesFrom fuel rest).map (.data d :: ·) := by
  unfold nextSized
  cases slice k rest with
  | none => rfl
  | some x => exact nextData_bind fuel _ x.2

/-- The loop reads one push after the other. -/
theorem parsePushesFrom_eq (fuel : ℕ) (b : Bytes) :
    parsePushesFrom fuel b = readAll nextPush fuel b := by
  induction fuel generalizing b with
  | zero => cases b <;> rfl
  | succ fuel ih =>
    cases b with
    | nil => rfl
    | cons op rest =>
      have hread : readAll nextPush (fuel + 1) (op :: rest) = (nextPush (op :: rest)).bind
          fun (t, rest) => (parsePushesFrom fuel rest).map (t :: ·) := by
        rw [readAll]
        simp only [← ih]
      rw [hread, nextPush, parsePushesFrom]
      dsimp only
      split
      · rfl
      split
      · rfl
      split
      · rfl
      split
      · exact (nextData_bind fuel _ rest).symm
      split
      · exact (nextSized_bind fuel 1 rest).symm
      split
      · exact (nextSized_bind fuel 2 rest).symm
      split
      · exact (nextSized_bind fuel 4 rest).symm
      · rfl

theorem slice_append {n : ℕ} {d : Bytes} (h : d.length = n) (rest : Bytes) :
    slice n (d ++ rest) = some (d, rest) := by
  subst h
  rw [slice, if_pos (by simp), List.take_left, List.drop_left]

theorem slice_eq_some {n : ℕ} {b d rest : Bytes} (h : slice n b = some (d, rest)) :
    d.length = n ∧ b = d ++ rest := by
  unfold slice at h
  split at h
  · next hle =>
    cases h
    exact ⟨List.length_take_of_le hle, (List.take_append_drop n b).symm⟩
  · cases h

theorem nextData_append {n : ℕ} {d : Bytes} (h : d.length = n) (rest : Bytes) :
    nextData n (d ++ rest) = some (.data d, rest) := by
  rw [nextData, slice_append h]
  rfl

theorem nextSized_append {k : ℕ} {n d : Bytes} (hn : n.length = k) (hd : d.length = ofLeBytes n)
    (rest : Bytes) : nextSized k (n ++ d ++ rest) = some (.data d, rest) := by
  rw [nextSized, List.append_assoc, slice_append hn]
  exact nextData_append hd rest

theorem nextData_eq_some {n : ℕ} {b rest : Bytes} {t : Push} (h : nextData n b = some (t, rest)) :
    ∃ d : Bytes, t = .data d ∧ d.length = n ∧ b = d ++ rest := by
  obtain ⟨⟨d, r⟩, hslice, heq⟩ := Option.map_eq_some_iff.mp h
  cases heq
  exact ⟨d, rfl, slice_eq_some hslice⟩

theorem nextSized_eq_some {k : ℕ} {b rest : Bytes} {t : Push} (h : nextSized k b = some (t, rest)) :
    ∃ n d : Bytes, t = .data d ∧ n.length = k ∧ d.length = ofLeBytes n ∧ b = n ++ d ++ rest := by
  obtain ⟨⟨n, r⟩, hslice, hdata⟩ := Option.bind_eq_some_iff.mp h
  obtain ⟨d, rfl, hd, rfl⟩ := nextData_eq_some hdata
  obtain ⟨hn, rfl⟩ := slice_eq_some hslice
  exact ⟨n, d, rfl, hn, hd, (List.append_assoc ..).symm⟩

theorem nextPush_small {op : UInt8} (h : 0x51 ≤ op ∧ op ≤ 0x60) (rest : Bytes) :
    nextPush (op :: rest) = some (.num (byteAsI64 (op - 0x50)), rest) := by
  rw [nextPush, if_neg, if_neg, if_pos h]
  · rintro rfl
    exact absurd h (by decide)
  · rintro rfl
    exact absurd h (by decide)

theorem nextPush_direct {op : UInt8} (h : 0x01 ≤ op ∧ op ≤ 0x4b) (rest : Bytes) :
    nextPush (op :: rest) = nextData op.toNat rest := by
  rw [nextPush, if_neg, if_neg, if_neg, if_pos h]
  · rintro ⟨hlow, -⟩
    have hle : 0x51 ≤ op.toNat := UInt8.le_iff_toNat_le.mp hlow
    have hge : op.toNat ≤ 0x4b := UInt8.le_iff_toNat_le.mp h.2
    omega
  · rintro rfl
    exact absurd h (by decide)
  · rintro rfl
    exact absurd h (by decide)

theorem nextPush_form {b rest : Bytes} {t : Push} (h : nextPush b = some (t, rest)) :
    ∃ p, PushForm p t ∧ b = p ++ rest := by
  cases b with
  | nil => cases h
  | cons op b =>
    rw [nextPush] at h
    split at h
    · next hop =>
      cases h
      exact ⟨[0x00], .zero, by rw [hop]; rfl⟩
    split at h
    · next hop =>
      cases h
      exact ⟨[0x4f], .negativeOne, by rw [hop]; rfl⟩
    split at h
    · next hop =>
      cases h
      exact ⟨[op], .small op hop, rfl⟩
    split at h
    · next hop =>
      obtain ⟨d, rfl, hd, rfl⟩ := nextData_eq_some h
      exact ⟨op :: d, .direct op d hop hd, rfl⟩
    split at h
    · next hop =>
      obtain ⟨n, d, rfl, hn, hd, rfl⟩ := nextSized_eq_some h
      exact ⟨0x4c :: (n ++ d), .data1 n d hn hd, by rw [hop]; rfl⟩
    split at h
    · next hop =>
      obtain ⟨n, d, rfl, hn, hd, rfl⟩ := nextSized_eq_some h
      exact ⟨0x4d :: (n ++ d), .data2 n d hn hd, by rw [hop]; rfl⟩
    split at h
    · next hop =>
      obtain ⟨n, d, rfl, hn, hd, rfl⟩ := nextSized_eq_some h
      exact ⟨0x4e :: (n ++ d), .data4 n d hn hd, by rw [hop]; rfl⟩
    · cases h

theorem pushes_framed : Framed nextPush PushForm where
  nonempty h := by cases h <;> exact List.cons_ne_nil _ _
  split := nextPush_form
  read rest h := by
    cases h with
    | zero => rfl
    | negativeOne => rfl
    | small op hop => exact nextPush_small hop rest
    | direct op d hop hd => exact (nextPush_direct hop (d ++ rest)).trans (nextData_append hd rest)
    | data1 n d hn hd => exact nextSized_append hn hd rest
    | data2 n d hn hd => exact nextSized_append hn hd rest
    | data4 n d hn hd => exact nextSized_append hn hd rest

/-- A script parses exactly when it is a concatenation of complete pushes, and as these. -/
theorem parsePushes_iff (b : Bytes) (ts : List Push) :
    parsePushes b = some ts ↔
      ∃ pieces : List Bytes, b = pieces.flatten ∧ List.Forall₂ PushForm pieces ts := by
  rw [parsePushes, parsePushesFrom_eq]
  exact pushes_framed.readAll_iff le_rfl ts

/-! ## Script numbers -/

/-- The accumulator of `decode_script_number`. -/
def orBytes (b : Bytes) : Int64 :=
  b.zipIdx.foldl (fun r (byte, i) => r ||| (byteAsI64 byte <<< Int64.ofNat (8 * i))) 0

theorem orBytes_concat (b : Bytes) (c : UInt8) :
    orBytes (b ++ [c]) = orBytes b ||| (byteAsI64 c <<< Int64.ofNat (8 * b.length)) := by
  rw [orBytes, List.zipIdx_append, List.foldl_append]
  simp [orBytes]

theorem shift_toBitVec (v : Int64) {k : ℕ} (hk : k < 8) :
    (v <<< Int64.ofNat (8 * k)).toBitVec = v.toBitVec <<< (8 * k) := by
  have hcount : ∀ k < 8, (Int64.ofNat (8 * k)).toBitVec.smod 64 = BitVec.ofNat 64 (8 * k) := by decide
  rw [Int64.toBitVec_shiftLeft]
  change v.toBitVec <<< ((Int64.ofNat (8 * k)).toBitVec.smod 64) = _
  rw [hcount k hk, BitVec.shiftLeft_eq', BitVec.toNat_ofNat, Nat.mod_eq_of_lt (by omega)]

theorem byteAsI64_toNat (c : UInt8) : (byteAsI64 c).toBitVec.toNat = c.toNat := by
  have hlt := c.toNat_lt
  change (BitVec.ofNat 64 c.toNat).toNat = c.toNat
  rw [BitVec.toNat_ofNat, Nat.mod_eq_of_lt (by omega)]

theorem shifted_byte (c : UInt8) {k : ℕ} (hk : k < 8) :
    (byteAsI64 c <<< Int64.ofNat (8 * k)).toBitVec.toNat = 2 ^ (8 * k) * c.toNat := by
  have hlt := c.toNat_lt
  have hbound : c.toNat * 2 ^ (8 * k) < 2 ^ 64 := calc
    c.toNat * 2 ^ (8 * k) < 2 ^ 8 * 2 ^ (8 * k) := Nat.mul_lt_mul_of_pos_right hlt (Nat.two_pow_pos _)
    _ = 2 ^ (8 + 8 * k) := (pow_add ..).symm
    _ ≤ 2 ^ 64 := Nat.pow_le_pow_right (by decide) (by omega)
  rw [shift_toBitVec _ hk, BitVec.toNat_shiftLeft, byteAsI64_toNat, Nat.shiftLeft_eq,
    Nat.mod_eq_of_lt hbound, mul_comm]

theorem orBytes_toNat {b : Bytes} (h : b.length ≤ 8) :
    (orBytes b).toBitVec.toNat = ofLeBytes b := by
  induction b using List.reverseRecOn with
  | nil => rfl
  | append_singleton b c ih =>
    rw [List.length_append, List.length_singleton] at h
    have hlt := ofLeBytes_lt b
    have hpow : 256 ^ b.length = 2 ^ (8 * b.length) := (pow_mul 2 8 b.length).symm
    rw [hpow] at hlt
    rw [orBytes_concat, Int64.toBitVec_or, BitVec.toNat_or, ih (by omega), shifted_byte c (by omega),
      ofLeBytes_append, hpow, Nat.or_comm, ← Nat.two_pow_add_eq_or_of_lt hlt]
    simp [ofLeBytes, add_comm]

theorem clear_or {a m : BitVec 64} (h : a &&& m = 0#64) : (a ||| m) &&& ~~~m = a := by
  apply BitVec.eq_of_getLsbD_eq
  intro i hi
  have hbit := congrArg (BitVec.getLsbD · i) h
  simp only [BitVec.getLsbD_and, BitVec.getLsbD_zero] at hbit
  simp only [BitVec.getLsbD_and, BitVec.getLsbD_or, BitVec.getLsbD_not, hi, decide_true,
    Bool.true_and]
  cases ha : a.getLsbD i <;> cases hm : m.getLsbD i <;> simp_all

/-- What the sign bit adds to a byte without it. -/
theorem byteAsI64_sign (c : UInt8) : byteAsI64 (c ||| 0x80) = byteAsI64 c ||| 0x80 := by
  apply Int64.toBitVec_inj.mp
  apply BitVec.eq_of_toNat_eq
  rw [byteAsI64_toNat, Int64.toBitVec_or, BitVec.toNat_or, byteAsI64_toNat, UInt8.toNat_or]
  rfl

theorem signBit_large {c : UInt8} (h : c &&& 0x80 ≠ 0) : 128 ≤ c.toNat := by
  obtain ⟨c⟩ := c
  revert c
  decide

theorem signBit_small {c : UInt8} (h : c &&& 0x80 = 0) : c.toNat < 128 := by
  obtain ⟨hkeep, -, hsmall⟩ := signBit_apart c
  rwa [hkeep h] at hsmall

theorem magnitude_lt {low : Bytes} {c : UInt8} (hc : c &&& 0x80 = 0) :
    ofLeBytes (low ++ [c]) < 2 ^ (8 * low.length + 7) := by
  have hlt := ofLeBytes_lt low
  have hsmall := signBit_small hc
  have hpow : 256 ^ low.length = 2 ^ (8 * low.length) := (pow_mul 2 8 low.length).symm
  have hstep : 2 ^ (8 * low.length) * c.toNat ≤ 2 ^ (8 * low.length) * 127 :=
    Nat.mul_le_mul_left _ (by omega)
  rw [ofLeBytes_append, hpow, pow_add]
  rw [hpow] at hlt
  simp only [ofLeBytes, Nat.mul_zero, Nat.add_zero]
  omega

section
variable {low : Bytes} {c : UInt8} (hlow : low.length < 8) (hc : c &&& 0x80 = 0)
include hlow hc

/-- The sign bit of the last byte, set and cleared again. -/
theorem orBytes_sign :
    orBytes (low ++ [c ||| 0x80]) &&& ~~~((0x80 : Int64) <<< Int64.ofNat (8 * low.length)) =
      orBytes (low ++ [c]) := by
  have hmask : ((0x80 : Int64) <<< Int64.ofNat (8 * low.length)).toBitVec.toNat =
      2 ^ (8 * low.length + 7) := by
    rw [pow_add]
    exact shifted_byte 0x80 hlow
  have hset : (orBytes (low ++ [c ||| 0x80])).toBitVec = (orBytes (low ++ [c])).toBitVec |||
      ((0x80 : Int64) <<< Int64.ofNat (8 * low.length)).toBitVec := by
    rw [orBytes_concat, orBytes_concat, byteAsI64_sign, Int64.toBitVec_or, Int64.toBitVec_or,
      shift_toBitVec _ hlow, shift_toBitVec _ hlow, shift_toBitVec _ hlow, Int64.toBitVec_or,
      BitVec.shiftLeft_or_distrib, BitVec.or_assoc]
  apply Int64.toBitVec_inj.mp
  rw [Int64.toBitVec_and, Int64.toBitVec_not, hset]
  apply clear_or
  apply BitVec.eq_of_toNat_eq
  have hlength : (low ++ [c]).length ≤ 8 := by
    rw [List.length_append, List.length_singleton]
    omega
  rw [BitVec.toNat_and, hmask, orBytes_toNat hlength, Nat.and_two_pow,
    Nat.testBit_lt_two_pow (magnitude_lt hc)]
  simp

theorem orBytes_ofNat : orBytes (low ++ [c]) = Int64.ofNat (ofLeBytes (low ++ [c])) := by
  have hlength : (low ++ [c]).length ≤ 8 := by
    rw [List.length_append, List.length_singleton]
    omega
  have hlt : ofLeBytes (low ++ [c]) < 2 ^ 64 :=
    (magnitude_lt hc).trans_le (Nat.pow_le_pow_right (by decide) (by omega))
  apply Int64.toBitVec_inj.mp
  apply BitVec.eq_of_toNat_eq
  change _ = (BitVec.ofNat 64 _).toNat
  rw [orBytes_toNat hlength, BitVec.toNat_ofNat, Nat.mod_eq_of_lt hlt]

/-- Without a sign bit the bytes are the number, little-endian. -/
theorem decodeScriptNumber_plain :
    decodeScriptNumber (low ++ [c]) = Int64.ofNat (ofLeBytes (low ++ [c])) := by
  rw [← orBytes_ofNat hlow hc]
  unfold decodeScriptNumber
  rw [List.getLast?_concat]
  dsimp only
  rw [if_neg (not_not.mpr hc)]
  rfl

theorem decodeScriptNumber_signed :
    decodeScriptNumber (low ++ [c ||| 0x80]) = -Int64.ofNat (ofLeBytes (low ++ [c])) := by
  have hset := (signBit hc).1
  have hlength : (low ++ [c ||| 0x80]).length - 1 = low.length := by simp
  rw [← orBytes_ofNat hlow hc, ← orBytes_sign hlow hc]
  unfold decodeScriptNumber
  rw [List.getLast?_concat]
  dsimp only
  rw [if_pos hset, hlength]
  rfl

end

def signByte (v : Int64) : UInt8 := if v < 0 then 0x80 else 0x00

/-- The bytes of the magnitude, little-endian, without zeros at the end. -/
def magnitude (v : Int64) : Bytes := (Nat.digits 256 v.toInt.natAbs).map UInt8.ofNat

/-- The minimal script number: the sign takes a byte of its own only where the top bit is taken. -/
def scriptNumber (v : Int64) : Bytes :=
  match (magnitude v).getLast? with
  | none => []
  | some last =>
    if last &&& 0x80 ≠ 0 then magnitude v ++ [signByte v]
    else (magnitude v).dropLast ++ [last ||| signByte v]

theorem ofLeBytes_digits {l : List ℕ} (h : ∀ n ∈ l, n < 256) :
    ofLeBytes (l.map UInt8.ofNat) = Nat.ofDigits 256 l := by
  induction l with
  | nil => rfl
  | cons n l ih =>
    have hn := h n List.mem_cons_self
    rw [List.map_cons, ofLeBytes, Nat.ofDigits_cons, ih fun m hm => h m (List.mem_cons_of_mem n hm),
      UInt8.toNat_ofNat', Nat.mod_eq_of_lt hn]

theorem ofLeBytes_magnitude (v : Int64) : ofLeBytes (magnitude v) = v.toInt.natAbs := by
  rw [magnitude, ofLeBytes_digits fun n hn => Nat.digits_lt_base (by decide) hn, Nat.ofDigits_digits]

theorem magnitude_length (v : Int64) {k : ℕ} : (magnitude v).length ≤ k ↔ v.toInt.natAbs < 256 ^ k := by
  rw [magnitude, List.length_map]
  exact Nat.digits_length_le_iff (by decide) _

theorem natAbs_lt {v : Int64} (h : v ≠ Int64.minValue) : v.toInt.natAbs < 2 ^ 63 := by
  have hne : v.toInt ≠ -2 ^ 63 := fun heq => h (Int64.toInt_inj.mp heq)
  have hlow := v.le_toInt
  have hhigh := v.toInt_lt
  omega

theorem signed_ofNat {v : Int64} (h : v ≠ Int64.minValue) :
    (if v < 0 then -Int64.ofNat v.toInt.natAbs else Int64.ofNat v.toInt.natAbs) = v := by
  have hbound := natAbs_lt h
  have hnat := Int64.toInt_ofNat_of_lt hbound
  apply Int64.toInt_inj.mp
  split
  · next hneg =>
    have hlt : v.toInt < 0 := Int64.lt_iff_toInt_lt.mp hneg
    rw [Int64.toInt_neg, hnat, Int.bmod_def]
    omega
  · next hpos =>
    have hge : ¬ v.toInt < 0 := fun hlt => hpos (Int64.lt_iff_toInt_lt.mpr hlt)
    rw [hnat]
    omega

/-- Bytes with room for the sign, and the sign put in. -/
theorem decodeScriptNumber_sign {low : Bytes} {c : UInt8} {v : Int64} (hlow : low.length < 8)
    (hc : c &&& 0x80 = 0) (hv : v ≠ Int64.minValue)
    (hmag : ofLeBytes (low ++ [c]) = v.toInt.natAbs) :
    decodeScriptNumber (low ++ [c ||| signByte v]) = v := by
  have hsigned := signed_ofNat hv
  unfold signByte
  split
  · next hneg =>
    rw [if_pos hneg] at hsigned
    rw [decodeScriptNumber_signed hlow hc, hmag, hsigned]
  · next hpos =>
    rw [if_neg hpos] at hsigned
    rw [UInt8.or_zero, decodeScriptNumber_plain hlow hc, hmag, hsigned]

theorem decode_scriptNumber {v : Int64} (hv : v ≠ Int64.minValue) :
    decodeScriptNumber (scriptNumber v) = v ∧ (scriptNumber v).length ≤ 8 := by
  have hbound := natAbs_lt hv
  have hlength : (magnitude v).length ≤ 8 := (magnitude_length v).mpr (by omega)
  have hmag := ofLeBytes_magnitude v
  unfold scriptNumber
  cases hlast : (magnitude v).getLast? with
  | none =>
    rw [List.getLast?_eq_none_iff.mp hlast] at hmag
    have hzero : v.toInt = 0 := by
      simp only [ofLeBytes] at hmag
      omega
    exact ⟨(Int64.toInt_inj.mp hzero).symm, by simp⟩
  | some last =>
    obtain ⟨low, hlow⟩ := List.getLast?_eq_some_iff.mp hlast
    rw [hlow] at hmag hlength ⊢
    rw [List.length_append, List.length_singleton] at hlength
    dsimp only
    split
    · next htop =>
      have hlarge := signBit_large htop
      -- a magnitude of eight bytes would reach the sign bit of an i64
      have hroom : low.length < 7 := by
        by_contra hfull
        have hseven : low.length = 7 := by omega
        rw [ofLeBytes_append, hseven] at hmag
        simp only [ofLeBytes] at hmag
        omega
      have hconcat : (low ++ [last]).length < 8 := by
        rw [List.length_append, List.length_singleton]
        omega
      have hzero : ofLeBytes (low ++ [last] ++ [0]) = v.toInt.natAbs := by
        rw [ofLeBytes_append, hmag]
        simp [ofLeBytes]
      have hdecode := decodeScriptNumber_sign hconcat (by decide) hv hzero
      rw [UInt8.zero_or] at hdecode
      refine ⟨hdecode, ?_⟩
      simp only [List.length_append, List.length_singleton]
      omega
    · next htop =>
      rw [List.dropLast_concat]
      exact ⟨decodeScriptNumber_sign (by omega) (not_not.mp htop) hv hmag, by simpa using hlength⟩

/-- What bytes can hold beside their sign bit. -/
theorem decode_natAbs_lt {low : Bytes} {c : UInt8} (hlow : low.length < 8) :
    (decodeScriptNumber (low ++ [c])).toInt.natAbs < 2 ^ (8 * low.length + 7) := by
  obtain ⟨hkeep, hset, hsmall⟩ := signBit_apart c
  have hbits : (c &&& 0x7f) &&& 0x80 = 0 := by rw [UInt8.and_assoc]; exact UInt8.and_zero
  have hlt := @magnitude_lt low _ hbits
  have hbound : ofLeBytes (low ++ [c &&& 0x7f]) < 2 ^ 63 :=
    hlt.trans_le (Nat.pow_le_pow_right (by decide) (by omega))
  have hnat := Int64.toInt_ofNat_of_lt hbound
  by_cases hc : c &&& 0x80 = 0
  · have hplain := decodeScriptNumber_plain hlow hbits
    rw [hkeep hc] at hplain hlt hnat
    rw [hplain, hnat]
    exact hlt
  · have hsigned := decodeScriptNumber_signed hlow hbits
    rw [hset hc] at hsigned
    rw [hsigned, Int64.toInt_neg, hnat, Int.bmod_def]
    omega

/-- No script number of the same value has fewer bytes. -/
theorem scriptNumber_minimal {b : Bytes} (hb : b.length ≤ 8) :
    (scriptNumber (decodeScriptNumber b)).length ≤ b.length := by
  rcases List.eq_nil_or_concat b with rfl | ⟨low, c, rfl⟩
  · decide
  rw [List.concat_eq_append] at hb ⊢
  rw [List.length_append, List.length_singleton] at hb ⊢
  set v := decodeScriptNumber (low ++ [c]) with hv
  have hlt : v.toInt.natAbs < 2 ^ (8 * low.length + 7) := decode_natAbs_lt (by omega)
  have hmag := ofLeBytes_magnitude v
  unfold scriptNumber
  cases hlast : (magnitude v).getLast? with
  | none => simp
  | some last =>
    obtain ⟨rest, hrest⟩ := List.getLast?_eq_some_iff.mp hlast
    dsimp only
    split
    · next htop =>
      have hlarge := signBit_large htop
      have hshorter : rest.length < low.length := by
        by_contra hge
        have hpow : 2 ^ (8 * low.length + 7) ≤ 2 ^ (8 * rest.length + 7) :=
          Nat.pow_le_pow_right (by decide) (by omega)
        have hstep : 2 ^ (8 * rest.length) * 128 ≤ 2 ^ (8 * rest.length) * last.toNat :=
          Nat.mul_le_mul_left _ hlarge
        have hbase : 256 ^ rest.length = 2 ^ (8 * rest.length) := (pow_mul 2 8 rest.length).symm
        rw [pow_add 2 (8 * rest.length)] at hpow
        rw [hrest, ofLeBytes_append, hbase] at hmag
        simp only [ofLeBytes, Nat.mul_zero, Nat.add_zero] at hmag
        omega
      simp only [hrest, List.length_append, List.length_singleton]
      omega
    · have hfits : (magnitude v).length ≤ low.length + 1 := by
        have hbase : 256 ^ (low.length + 1) = 2 ^ (8 * (low.length + 1)) := (pow_mul 2 8 _).symm
        rw [magnitude_length, hbase]
        exact hlt.trans_le (Nat.pow_le_pow_right (by decide) (by omega))
      rw [hrest, List.dropLast_concat]
      rw [hrest] at hfits
      simpa using hfits

/-! ## Pushes -/

/-- The shortest push of a byte string. -/
def pushBytes (d : Bytes) : Bytes :=
  if d.length ≤ 0x4b then UInt8.ofNat d.length :: d
  else if d.length < 2 ^ 8 then 0x4c :: (leBytes 1 d.length ++ d)
  else if d.length < 2 ^ 16 then 0x4d :: (leBytes 2 d.length ++ d)
  else 0x4e :: (leBytes 4 d.length ++ d)

/-- The push of an integer: a number op where there is one. -/
def pushInt (v : Int64) : Bytes :=
  if v = 0 then [0x00]
  else if v = -1 then [0x4f]
  else if 1 ≤ v ∧ v ≤ 16 then [0x50 + UInt8.ofNat v.toInt.toNat]
  else pushBytes (scriptNumber v)

theorem pushBytes_form {d : Bytes} (hpos : 1 ≤ d.length) (hlt : d.length < 2 ^ 32) :
    PushForm (pushBytes d) (.data d) := by
  unfold pushBytes
  split
  · next hshort =>
    have hop : (UInt8.ofNat d.length).toNat = d.length := by
      rw [UInt8.toNat_ofNat']
      omega
    refine .direct _ d ⟨?_, ?_⟩ hop.symm
    · exact UInt8.le_iff_toNat_le.mpr (by rw [hop]; exact hpos)
    · exact UInt8.le_iff_toNat_le.mpr (by rw [hop]; exact hshort)
  split
  · next h => exact .data1 _ d (leBytes_length ..) (ofLeBytes_leBytes (by omega)).symm
  split
  · next h => exact .data2 _ d (leBytes_length ..) (ofLeBytes_leBytes (by omega)).symm
  · exact .data4 _ d (leBytes_length ..) (ofLeBytes_leBytes (by omega)).symm

/-- No other push of the byte string is shorter. -/
theorem pushBytes_shortest {p d : Bytes} (h : PushForm p (.data d)) :
    (pushBytes d).length ≤ p.length := by
  unfold pushBytes
  cases h with
  | direct op d hop hd =>
    have hle : op.toNat ≤ 0x4b := UInt8.le_iff_toNat_le.mp hop.2
    rw [if_pos (by omega)]
    simp
  | data1 n d hn hd =>
    have hlt := ofLeBytes_lt n
    rw [hn, ← hd] at hlt
    split
    · simp
    rw [if_pos (by omega)]
    simp [hn, leBytes_length]
  | data2 n d hn hd =>
    have hlt := ofLeBytes_lt n
    rw [hn, ← hd] at hlt
    split
    · simp
    split
    · simp [hn, leBytes_length]
    rw [if_pos (by omega)]
    simp [hn, leBytes_length]
  | data4 n d hn hd =>
    split
    · simp
    split
    · simp [hn, leBytes_length]
    split <;> simp [hn, leBytes_length]

theorem pushInt_form {v : Int64} (hv : v ≠ Int64.minValue) :
    ∃ t, PushForm (pushInt v) t ∧ t.asI64 = some v := by
  unfold pushInt
  split
  · next h => exact ⟨.num 0, .zero, by rw [h]; rfl⟩
  split
  · next h => exact ⟨.num (-1), .negativeOne, by rw [h]; rfl⟩
  split
  · next h =>
    have hlow : 1 ≤ v.toInt := Int64.le_iff_toInt_le.mp h.1
    have hhigh : v.toInt ≤ 16 := Int64.le_iff_toInt_le.mp h.2
    have hops : ∀ k : Fin 17, 1 ≤ k.val → (0x51 ≤ 0x50 + UInt8.ofNat k ∧ 0x50 + UInt8.ofNat k ≤ 0x60) ∧
        byteAsI64 (0x50 + UInt8.ofNat k - 0x50) = Int64.ofNat k := by decide
    obtain ⟨hop, hvalue⟩ := hops ⟨v.toInt.toNat, by omega⟩ (by simp only; omega)
    refine ⟨_, .small _ hop, ?_⟩
    rw [Push.asI64, hvalue]
    apply congrArg some
    apply Int64.toInt_inj.mp
    rw [Int64.toInt_ofNat_of_lt (by simp only; omega)]
    simp only
    omega
  · next hzero _ _ =>
    obtain ⟨hdecode, hlength⟩ := decode_scriptNumber hv
    have hne : scriptNumber v ≠ [] := by
      intro hnil
      rw [hnil] at hdecode
      exact hzero hdecode.symm
    refine ⟨_, pushBytes_form (List.length_pos_iff.mpr hne) (by omega), ?_⟩
    rw [Push.asI64, hdecode]

/-! ## Signature scripts -/

/-- A byte string with a push of its own: two bytes at least, and a length of 32 bits. -/
abbrev Pushable := { d : Bytes // 2 ≤ d.length ∧ d.length < 2 ^ 32 }

inductive Arg
  | int (v : { v : Int64 // v ≠ Int64.minValue })
  | bytes (d : Pushable)

def Arg.push : Arg → Bytes
  | .int v => pushInt v.val
  | .bytes d => pushBytes d.val

/-- What a token gives back of an argument. -/
def Arg.Reads : Arg → Push → Prop
  | .int v, t => t.asI64 = some v.val
  | .bytes d, t => t.bytes? = some d.val

/-- The script of a spend: the arguments, the dispatch tag, the redeem script. -/
def sigScript (args : List Arg) (tag : Tag) (redeem : Pushable) : Bytes :=
  (args.map Arg.push).flatten ++ (pushBytes tag.toList ++ pushBytes redeem.val)

theorem args_pushed (args : List Arg) :
    ∃ ts, List.Forall₂ PushForm (args.map Arg.push) ts ∧ List.Forall₂ Arg.Reads args ts := by
  induction args with
  | nil => exact ⟨[], .nil, .nil⟩
  | cons arg args ih =>
    obtain ⟨ts, hforms, hreads⟩ := ih
    cases arg with
    | int v =>
      obtain ⟨t, hform, hread⟩ := pushInt_form v.property
      exact ⟨t :: ts, .cons hform hforms, .cons hread hreads⟩
    | bytes d =>
      have hform := pushBytes_form (d := d.val) (by omega) d.property.2
      exact ⟨.data d.val :: ts, .cons hform hforms, .cons rfl hreads⟩

theorem decodeSigScript_written (args : List Arg) (tag : Tag) (redeem : Pushable) :
    ∃ tokens, decodeSigScript (sigScript args tag redeem) = some ⟨tokens, tag, redeem.val⟩ ∧
      List.Forall₂ Arg.Reads args tokens := by
  obtain ⟨ts, hforms, hreads⟩ := args_pushed args
  have htag : tag.toList.length = 4 := tag.toList_length
  have hends : List.Forall₂ PushForm [pushBytes tag.toList, pushBytes redeem.val]
      [.data tag.toList, .data redeem.val] :=
    .cons (pushBytes_form (by omega) (by omega))
      (.cons (pushBytes_form (by omega) redeem.property.2) .nil)
  have hparse : parsePushes (sigScript args tag redeem) =
      some (ts ++ [.data tag.toList, .data redeem.val]) := by
    refine (parsePushes_iff _ _).mpr
      ⟨args.map Arg.push ++ [pushBytes tag.toList, pushBytes redeem.val], ?_,
        List.rel_append hforms hends⟩
    simp [sigScript]
  have htry : tryInto 4 tag.toList = some tag := by
    rw [tryInto, dif_pos htag]
    exact congrArg some (Subtype.ext rfl)
  refine ⟨ts, ?_, hreads⟩
  unfold decodeSigScript
  rw [hparse]
  simp [htry]

/-- Signature scripts read back what was written, and parsing accepts exactly the concatenations of
complete pushes, whatever fuel beyond the script's length is given. -/
theorem scripts_faithful :
    (∀ (args : List Arg) (tag : Tag) (redeem : Pushable),
      ∃ tokens, decodeSigScript (sigScript args tag redeem) = some ⟨tokens, tag, redeem.val⟩ ∧
        List.Forall₂ Arg.Reads args tokens) ∧
    (∀ b ts, parsePushes b = some ts ↔
      ∃ pieces : List Bytes, b = pieces.flatten ∧ List.Forall₂ PushForm pieces ts) ∧
    (∀ b fuel, b.length ≤ fuel → parsePushesFrom fuel b = parsePushes b) ∧
    (∀ p d, PushForm p (.data d) → (pushBytes d).length ≤ p.length) ∧
    ∀ b : Bytes, b.length ≤ 8 → (scriptNumber (decodeScriptNumber b)).length ≤ b.length :=
  ⟨decodeSigScript_written, parsePushes_iff, fun b fuel h => parsePushesFrom_fuel fuel b h,
    fun _ _ => pushBytes_shortest, fun _ => scriptNumber_minimal⟩

example : (scriptNumber 128, scriptNumber (-1), scriptNumber (-128)) =
    ([0x80, 0x00], [0x81], [0x80, 0x80]) := by decide

end KaChatIndexer.NamesScripts
