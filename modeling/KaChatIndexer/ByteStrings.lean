import Mathlib.Data.Vector.Basic
import Mathlib.Data.List.Lex
import Mathlib.Algebra.GroupWithZero.Nat

/-!
# Byte strings

A `Vec<u8>` is a list of bytes, a `[u8; n]` a vector of them, and a `str` its UTF-8 bytes. The
standard-library functions below follow their documented behaviour on these.
-/
namespace KaChatIndexer.ByteStrings

abbrev Bytes := List UInt8
abbrev Bytes32 := List.Vector UInt8 32
abbrev Tag := List.Vector UInt8 4

scoped instance neZero_eight : NeZero 8 := ⟨by decide⟩

/-- `<[u8; n]>::try_from(&[u8])`. -/
def tryInto (n : ℕ) (b : Bytes) : Option (List.Vector UInt8 n) :=
  if h : b.length = n then some ⟨b, h⟩ else none

def zero32 : Bytes32 := List.Vector.replicate 32 0

/-- Arrays of bytes compare lexicographically. -/
def digits (k : Bytes32) : List ℕ := k.toList.map UInt8.toNat

theorem digits_injective : Function.Injective digits := by
  intro a b h
  apply Subtype.ext
  exact List.map_injective_iff.mpr (fun x y hxy => UInt8.toNat_inj.mp hxy) h

instance : LinearOrder Bytes32 := LinearOrder.lift' digits digits_injective

instance : LawfulBEq Bytes := inferInstance

instance : LawfulBEq Bytes32 := inferInstance

/-- `to_le_bytes` of the low `n` bytes. -/
def leBytes : ℕ → ℕ → Bytes
  | 0, _ => []
  | n + 1, v => UInt8.ofNat v :: leBytes n (v / 256)

theorem leBytes_length (n v : ℕ) : (leBytes n v).length = n := by
  induction n generalizing v with
  | zero => rfl
  | succ n ih => simp [leBytes, ih]

/-- `from_le_bytes`. -/
def ofLeBytes : Bytes → ℕ
  | [] => 0
  | b :: bs => b.toNat + 256 * ofLeBytes bs

/-- `script.get(i..i + n)` on what is left of the script, with the rest after it. -/
def slice (n : ℕ) (b : Bytes) : Option (Bytes × Bytes) :=
  if n ≤ b.length then some (b.take n, b.drop n) else none

/-- `str::strip_prefix`. -/
def stripPrefix : Bytes → Bytes → Option Bytes
  | [], b => some b
  | _ :: _, [] => none
  | p :: ps, c :: cs => if p = c then stripPrefix ps cs else none

theorem stripPrefix_isPrefixOf {pre b rest : Bytes} (h : stripPrefix pre b = some rest) :
    pre.isPrefixOf b = true := by
  induction pre generalizing b with
  | nil => simp
  | cons c pre ih =>
    cases b with
    | nil => cases h
    | cons d b =>
      simp only [stripPrefix] at h
      split at h
      · next hcd => simp [hcd, ih h]
      · cases h

def isDigit (c : UInt8) : Bool := 0x30 ≤ c && c ≤ 0x39

/-- The value of a nonempty run of ASCII digits. -/
def parseDigits (b : Bytes) : Option ℕ :=
  if b ≠ [] ∧ b.all isDigit then
    some (b.foldl (fun n c => 10 * n + (c.toNat - 0x30)) 0)
  else none

/-- `str::parse::<i64>`: an optional sign, then decimal digits; out of range is an error. -/
def parseI64 : Bytes → Option Int64
  | 0x2d :: ds => (parseDigits ds).bind fun n =>
      if n ≤ 2 ^ 63 then some (Int64.ofInt (-(n : ℤ))) else none
  | 0x2b :: ds => (parseDigits ds).bind fun n =>
      if n < 2 ^ 63 then some (Int64.ofNat n) else none
  | ds => (parseDigits ds).bind fun n =>
      if n < 2 ^ 63 then some (Int64.ofNat n) else none

/-- The decimal digits of a number. -/
def decimal (n : ℕ) : Bytes := (Nat.toDigits 10 n).map fun c => UInt8.ofNat c.toNat

/-- `i64::to_string`. -/
def i64ToString (v : Int64) : Bytes :=
  if v < 0 then 0x2d :: decimal v.toInt.natAbs else decimal v.toInt.natAbs

theorem toDigits_bounds {n : ℕ} {c : Char} (h : c ∈ Nat.toDigits 10 n) :
    48 ≤ c.toNat ∧ c.toNat ≤ 57 := by
  have hdigit := Nat.isDigit_of_mem_toDigits (by decide) (by decide) h
  simp only [Char.isDigit, Bool.and_eq_true, decide_eq_true_eq, UInt32.le_iff_toNat_le] at hdigit
  exact hdigit

theorem decimal_digits {n : ℕ} {c : UInt8} (h : c ∈ decimal n) : isDigit c = true := by
  obtain ⟨d, hd, rfl⟩ := List.mem_map.mp h
  obtain ⟨hlo, hhi⟩ := toDigits_bounds hd
  have hval : (UInt8.ofNat d.toNat).toNat = d.toNat := by
    rw [UInt8.toNat_ofNat']
    omega
  simp only [isDigit, Bool.and_eq_true, decide_eq_true_eq, UInt8.le_iff_toNat_le, hval]
  exact ⟨hlo, hhi⟩

/-- The digits of a number, read as `parseDigits` does. -/
theorem foldl_digits (n : ℕ) (l : List Char) (acc : ℕ) (h : ∀ c ∈ l, c ∈ Nat.toDigits 10 n) :
    (l.map fun c => UInt8.ofNat c.toNat).foldl (fun n c => 10 * n + (c.toNat - 0x30)) acc =
      Nat.ofDigitChars 10 l acc := by
  induction l generalizing acc with
  | nil => rfl
  | cons c l ih =>
    obtain ⟨-, hhi⟩ := toDigits_bounds (h c List.mem_cons_self)
    rw [List.map_cons, List.foldl_cons, ih _ fun d hd => h d (List.mem_cons_of_mem c hd),
      Nat.ofDigitChars_cons, UInt8.toNat_ofNat', Nat.mod_eq_of_lt (by omega)]
    rfl

theorem parseDigits_decimal (n : ℕ) : parseDigits (decimal n) = some n := by
  have hall : (decimal n).all isDigit = true := List.all_eq_true.mpr fun c hc => decimal_digits hc
  have hne : decimal n ≠ [] := by simp [decimal, Nat.toDigits_ne_nil]
  unfold parseDigits
  rw [if_pos ⟨hne, hall⟩, decimal, foldl_digits n _ 0 fun _ h => h, Nat.ofDigitChars_ten_toDigits]

/-- Every integer parses from its decimal text. -/
theorem parseI64_toString (v : Int64) : parseI64 (i64ToString v) = some v := by
  have hge := v.le_toInt
  have hlt := v.toInt_lt
  unfold i64ToString
  split
  · next h =>
    have hneg : v.toInt < 0 := Int64.lt_iff_toInt_lt.mp h
    simp only [parseI64, parseDigits_decimal, Option.bind_some]
    rw [if_pos (by omega), show (-(v.toInt.natAbs : ℤ)) = v.toInt by omega, Int64.ofInt_toInt]
  · next h =>
    have hpos : 0 ≤ v.toInt := not_lt.mp fun hn => h (Int64.lt_iff_toInt_lt.mpr hn)
    have hunsigned : parseI64 (decimal v.toInt.natAbs) = (parseDigits (decimal v.toInt.natAbs)).bind
        fun n => if n < 2 ^ 63 then some (Int64.ofNat n) else none := by
      have hfirst : ∀ c ∈ decimal v.toInt.natAbs, isDigit c = true := fun c => decimal_digits
      unfold parseI64
      split
      · next heq => exact absurd (hfirst 0x2d (heq ▸ List.mem_cons_self)) (by decide)
      · next heq => exact absurd (hfirst 0x2b (heq ▸ List.mem_cons_self)) (by decide)
      · rfl
    have hvalue : Int64.ofNat v.toInt.natAbs = Int64.ofInt v.toInt := by
      rw [← Int64.ofInt_eq_ofNat]
      congr 1
      omega
    rw [hunsigned, parseDigits_decimal, Option.bind_some, if_pos (by omega), hvalue,
      Int64.ofInt_toInt]

/-- A decimal text has no comma. -/
theorem comma_i64ToString (v : Int64) : 0x2c ∉ i64ToString v := by
  have hdecimal (n : ℕ) : 0x2c ∉ decimal n := fun h => absurd (decimal_digits h) (by decide)
  unfold i64ToString
  split
  · simp [hdecimal]
  · exact hdecimal _

def isContinuation (c : UInt8) : Bool := 0x80 ≤ c && c ≤ 0xbf

/-- Whether `std::str::from_utf8` accepts the bytes (the well-formed sequences of the Unicode
standard: no overlong form, no surrogate, nothing above U+10FFFF). -/
def isUtf8 : Bytes → Bool
  | [] => true
  | a :: rest =>
    if a ≤ 0x7f then isUtf8 rest
    else match rest with
      | [] => false
      | b :: rest =>
        if 0xc2 ≤ a ∧ a ≤ 0xdf then isContinuation b && isUtf8 rest
        else match rest with
          | [] => false
          | c :: rest =>
            let second : Bool :=
              if a = 0xe0 then 0xa0 ≤ b && b ≤ 0xbf
              else if a = 0xed then 0x80 ≤ b && b ≤ 0x9f
              else isContinuation b
            if 0xe0 ≤ a ∧ a ≤ 0xef then second && isContinuation c && isUtf8 rest
            else match rest with
              | [] => false
              | d :: rest =>
                let second : Bool :=
                  if a = 0xf0 then 0x90 ≤ b && b ≤ 0xbf
                  else if a = 0xf4 then 0x80 ≤ b && b ≤ 0x8f
                  else isContinuation b
                if 0xf0 ≤ a ∧ a ≤ 0xf4 then
                  second && isContinuation c && isContinuation d && isUtf8 rest
                else false

/-- The first character of the bytes: whether it is well formed, and how many bytes it takes; of an
ill-formed one, how many bytes are replaced. -/
def firstChar : Bytes → Bool × ℕ
  | [] => (true, 0)
  | a :: rest =>
    let byte (i : ℕ) : UInt8 := rest[i]?.getD 0
    if a ≤ 0x7f then (true, 1)
    else if 0xc2 ≤ a ∧ a ≤ 0xdf then
      if isContinuation (byte 0) then (true, 2) else (false, 1)
    else if 0xe0 ≤ a ∧ a ≤ 0xef then
      let second : Bool :=
        if a = 0xe0 then 0xa0 ≤ byte 0 && byte 0 ≤ 0xbf
        else if a = 0xed then 0x80 ≤ byte 0 && byte 0 ≤ 0x9f
        else isContinuation (byte 0)
      if !second then (false, 1)
      else if isContinuation (byte 1) then (true, 3) else (false, 2)
    else if 0xf0 ≤ a ∧ a ≤ 0xf4 then
      let second : Bool :=
        if a = 0xf0 then 0x90 ≤ byte 0 && byte 0 ≤ 0xbf
        else if a = 0xf4 then 0x80 ≤ byte 0 && byte 0 ≤ 0x8f
        else isContinuation (byte 0)
      if !second then (false, 1)
      else if !isContinuation (byte 1) then (false, 2)
      else if isContinuation (byte 2) then (true, 4) else (false, 3)
    else (false, 1)

/-- The loop of `from_utf8_lossy`; every character takes a byte, so the length is fuel enough. -/
def fromUtf8LossyFrom : ℕ → Bytes → Bytes
  | 0, _ => []
  | fuel + 1, b =>
    let (wellFormed, n) := firstChar b
    (if wellFormed then b.take n else [0xef, 0xbf, 0xbd]) ++ fromUtf8LossyFrom fuel (b.drop n)

/-- `String::from_utf8_lossy`: U+FFFD stands for what is not UTF-8. -/
def fromUtf8Lossy (b : Bytes) : Bytes := fromUtf8LossyFrom b.length b

/-- ASCII text stands as it is. -/
theorem fromUtf8Lossy_ascii {b : Bytes} (h : ∀ c ∈ b, c ≤ 0x7f) : fromUtf8Lossy b = b := by
  unfold fromUtf8Lossy
  induction b with
  | nil => rfl
  | cons c b ih =>
    have hfirst : firstChar (c :: b) = (true, 1) := by simp [firstChar, h c List.mem_cons_self]
    have hrest := ih fun d hd => h d (List.mem_cons_of_mem c hd)
    simp [fromUtf8LossyFrom, hfirst, hrest]

/-- The bytes of an ASCII literal. -/
def ascii (s : String) : Bytes := s.toList.map fun c => UInt8.ofNat c.toNat

/-- The comparison `a > b` of `(u64, [u8; 32])` pairs. -/
def orderGt (a b : UInt64 × Bytes32) : Bool := b.1 < a.1 || (a.1 == b.1 && b.2 < a.2)

theorem orderGt_irrefl (a : UInt64 × Bytes32) : orderGt a a = false := by
  simp [orderGt]

theorem orderGt_trans {a b c : UInt64 × Bytes32} (h : orderGt a b = true) (h' : orderGt b c = true) :
    orderGt a c = true := by
  simp only [orderGt, Bool.or_eq_true, decide_eq_true_eq, Bool.and_eq_true, beq_iff_eq] at *
  rcases h with h | ⟨h1, h2⟩ <;> rcases h' with h' | ⟨h1', h2'⟩
  · exact .inl (UInt64.lt_trans h' h)
  · exact .inl (h1' ▸ h)
  · exact .inl (h1 ▸ h')
  · exact .inr ⟨h1.trans h1', lt_trans h2' h2⟩

end KaChatIndexer.ByteStrings
