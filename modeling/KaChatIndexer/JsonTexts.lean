import Mathlib.Algebra.GroupWithZero.Nat
import Mathlib.Data.List.Basic
import Mathlib.Tactic.Common

/-!
# JSON values as they are written

Two readers of one text may differ in what they make of it. A derived reader takes a structure from an
object by the names of its fields, or from an array by their places, and decodes the strings it needs.
A database decodes every string of a value before it takes a member out of it, and knows no text with
a NUL in it.
-/
namespace JsonTexts

abbrev Chars := List Char

/-- The escapes of one letter. -/
inductive Short
  | quote | backslash | slash | backspace | formFeed | lineFeed | carriage | tab
  deriving DecidableEq

def Short.letter : Short → Char
  | quote => '"'
  | backslash => '\\'
  | slash => '/'
  | backspace => 'b'
  | formFeed => 'f'
  | lineFeed => 'n'
  | carriage => 'r'
  | tab => 't'

def Short.value : Short → Char
  | quote => '"'
  | backslash => '\\'
  | slash => '/'
  | backspace => Char.ofNat 8
  | formFeed => Char.ofNat 12
  | lineFeed => '\n'
  | carriage => '\r'
  | tab => '\t'

/-- What a string is made of: characters, short escapes, and `\u` with four digits. -/
inductive Piece
  | plain (c : Char)
  | short (e : Short)
  | unit (u : UInt16)
  deriving DecidableEq

/-- A string between its quotes. -/
abbrev Written := List Piece

/-- The four digits of a unit, in lower case. -/
def hex4 (u : UInt16) : Chars := [4096, 256, 16, 1].map fun s => Nat.digitChar (u.toNat / s % 16)

def Piece.text : Piece → Chars
  | plain c => [c]
  | short e => ['\\', e.letter]
  | unit u => '\\' :: 'u' :: hex4 u

def Written.text (s : Written) : Chars := s.flatMap Piece.text

def isLead (u : UInt16) : Bool := 0xd800 ≤ u && u ≤ 0xdbff

def isTrail (u : UInt16) : Bool := 0xdc00 ≤ u && u ≤ 0xdfff

/-- The characters of a string; a surrogate without its other half is an error. -/
def decode : Written → Option Chars
  | [] => some []
  | .plain c :: rest => (decode rest).map (c :: ·)
  | .short e :: rest => (decode rest).map (e.value :: ·)
  | .unit u :: .unit w :: rest =>
    if isLead u then
      if isTrail w then
        (decode rest).map
          (Char.ofNat (0x10000 + 1024 * (u.toNat - 0xd800) + (w.toNat - 0xdc00)) :: ·)
      else none
    else if isTrail u then none
    else (decode (.unit w :: rest)).map (Char.ofNat u.toNat :: ·)
  | .unit u :: rest =>
    if isLead u || isTrail u then none else (decode rest).map (Char.ofNat u.toNat :: ·)

/-- A text as a writer spells it. -/
def escape (t : Chars) : Written :=
  t.map fun c =>
    if c = '"' then .short .quote
    else if c = '\\' then .short .backslash
    else if c = Char.ofNat 8 then .short .backspace
    else if c = Char.ofNat 12 then .short .formFeed
    else if c = '\n' then .short .lineFeed
    else if c = '\r' then .short .carriage
    else if c = '\t' then .short .tab
    else if c.toNat < 0x20 then .unit c.toNat.toUInt16
    else .plain c

theorem decode_unit {u : UInt16} (h : isLead u = false) (h' : isTrail u = false) (rest : Written) :
    decode (.unit u :: rest) = (decode rest).map (Char.ofNat u.toNat :: ·) := by
  rcases rest with - | ⟨⟨c⟩ | ⟨e⟩ | ⟨w⟩, rest⟩ <;> simp [decode, h, h']

theorem decode_escape (t : Chars) : decode (escape t) = some t := by
  induction t with
  | nil => rfl
  | cons c t ih =>
    have hcons : ∀ e : Short, e.value = c → decode (.short e :: escape t) = some (c :: t) := by
      rintro e rfl
      rw [decode, ih, Option.map_some]
    have hescape : escape (c :: t) = _ :: escape t := List.map_cons
    rw [hescape]
    split_ifs with hquote hback hbs hff hlf hcr htab hlow
    · exact hcons .quote hquote.symm
    · exact hcons .backslash hback.symm
    · exact hcons .backspace hbs.symm
    · exact hcons .formFeed hff.symm
    · exact hcons .lineFeed hlf.symm
    · exact hcons .carriage hcr.symm
    · exact hcons .tab htab.symm
    · have hval : (c.toNat.toUInt16).toNat = c.toNat := by
        simp only [Nat.toUInt16_eq, UInt16.toNat_ofNat']
        omega
      have hlead : isLead c.toNat.toUInt16 = false := by
        simp only [isLead, Bool.and_eq_false_iff, decide_eq_false_iff_not, UInt16.le_iff_toNat_le, hval]
        left
        simp
        omega
      have htrail : isTrail c.toNat.toUInt16 = false := by
        simp only [isTrail, Bool.and_eq_false_iff, decide_eq_false_iff_not, UInt16.le_iff_toNat_le, hval]
        left
        simp
        omega
      rw [decode_unit hlead htrail, ih, hval, Option.map_some, Char.ofNat_toNat]
    · rw [decode, ih, Option.map_some]

/-- A number keeps its spelling. -/
inductive Json
  | null
  | bool (b : Bool)
  | number (digits : Chars)
  | string (s : Written)
  | array (items : List Json)
  | object (members : List (Written × Json))

namespace Json

def quoted (s : Written) : Chars := '"' :: (s.text ++ ['"'])

mutual

/-- The text of a value, without blanks. -/
def text : Json → Chars
  | null => "null".toList
  | bool b => (if b then "true" else "false").toList
  | number digits => digits
  | string s => quoted s
  | array items => '[' :: (itemsText items ++ [']'])
  | object members => '{' :: (membersText members ++ ['}'])

def itemsText : List Json → Chars
  | [] => []
  | [j] => j.text
  | j :: js => j.text ++ ',' :: itemsText js

def membersText : List (Written × Json) → Chars
  | [] => []
  | [(k, j)] => quoted k ++ ':' :: j.text
  | (k, j) :: ms => quoted k ++ ':' :: (j.text ++ ',' :: membersText ms)

end

/-! ## Derived readers -/

/-- The members by their names; a name that does not decode is an error. -/
def named (members : List (Written × Json)) : Option (List (Chars × Json)) :=
  members.mapM fun m => (decode m.1).map fun name => (name, m.2)

/-- The field of this name, the `i`-th of its structure; two members of the name are an error. -/
def slot (name : Chars) (i : ℕ) : Json → Option (Option Json)
  | object members => (named members).bind fun ms =>
    match ms.filter fun m => m.1 = name with
    | [] => some none
    | [m] => some (some m.2)
    | _ => none
  | array items => some items[i]?
  | _ => none

/-- An object, or an array of at most `n` items. -/
def fits (n : ℕ) : Json → Bool
  | object _ => true
  | array items => items.length ≤ n
  | _ => false

def readText : Json → Option Chars
  | string s => decode s
  | _ => none

/-- A natural number below `2 ^ bits`, written without sign, fraction and exponent. -/
def readUint (bits : ℕ) : Json → Option ℕ
  | number digits =>
    let n := digits.foldl (fun n c => 10 * n + (c.toNat - 48)) 0
    if digits = Nat.toDigits 10 n ∧ n < 2 ^ bits then some n else none
  | _ => none

def readOptional {α : Type*} (read : Json → Option α) : Json → Option (Option α)
  | null => some none
  | j => (read j).map some

/-- An optional field; an absent one is empty. -/
def field {α : Type*} (name : Chars) (i : ℕ) (read : Json → Option α) (j : Json) : Option (Option α) :=
  (slot name i j).bind fun v => v.elim (some none) (readOptional read)

/-! ## A database's operators -/

inductive Kind
  | null | boolean | number | string | array | object
  deriving DecidableEq

/-- `json_typeof` -/
def kind : Json → Kind
  | null => .null
  | bool _ => .boolean
  | number _ => .number
  | string _ => .string
  | array _ => .array
  | object _ => .object

inductive DbError
  | badText
  | badEscape
  deriving DecidableEq

/-- A string that is a text of the database. -/
def legibleText (s : Written) : Bool := (decode s).isSome && s.all (· ≠ .unit 0)

mutual

/-- Every string of the value, names and nested values too, is a text of the database. -/
def legible : Json → Bool
  | string s => legibleText s
  | array items => legibleItems items
  | object members => legibleMembers members
  | _ => true

def legibleItems : List Json → Bool
  | [] => true
  | j :: js => j.legible && legibleItems js

def legibleMembers : List (Written × Json) → Bool
  | [] => true
  | (k, j) :: ms => legibleText k && j.legible && legibleMembers ms

end

/-- The last member of a name. -/
def lastMember (name : Chars) : Json → Option Json
  | object members => (members.filter fun m => decode m.1 = some name).getLast?.map Prod.snd
  | _ => none

/-- `j -> name` -/
def arrow (j : Json) (name : Chars) : Except DbError (Option Json) :=
  if j.legible then .ok (j.lastMember name) else .error .badEscape

/-- `j ->> name` -/
def arrowText (j : Json) (name : Chars) : Except DbError (Option Chars) :=
  (j.arrow name).map fun v => v.bind fun v =>
    match v with
    | null => none
    | string s => decode s
    | v => some v.text

section
variable {j : Json} {name : Chars} {i : ℕ} {members : List (Written × Json)}

theorem arrow_legible (h : j.legible = true) : j.arrow name = .ok (j.lastMember name) := if_pos h

theorem arrow_illegible (h : j.legible = false) : j.arrow name = .error .badEscape := by
  rw [arrow, h]
  rfl

theorem named_filter {ms : List (Chars × Json)} (h : named members = some ms) :
    (ms.filter fun m => m.1 = name).map Prod.snd =
      (members.filter fun m => decode m.1 = some name).map Prod.snd := by
  induction members generalizing ms with
  | nil =>
    cases h
    rfl
  | cons m members ih =>
    unfold named at h ih
    simp only [List.mapM_cons, Option.bind_eq_bind, Option.bind_eq_some_iff, Option.pure_def,
      Option.some.injEq, Option.map_eq_some_iff] at h
    obtain ⟨_, ⟨k, hk, rfl⟩, ms, hms, rfl⟩ := h
    rw [List.filter_cons, List.filter_cons, hk]
    by_cases hname : k = name
    · simp [hname, ih hms]
    · simp [hname, ih hms]

/-- The one member that a derived reader takes is the last one. -/
theorem lastMember_slot {v : Option Json} (h : slot name i (object members) = some v) :
    (object members).lastMember name = v := by
  obtain ⟨ms, hms, hmatch⟩ := Option.bind_eq_some_iff.mp h
  have hlast : (ms.filter fun m => m.1 = name).map Prod.snd =
      (members.filter fun m => decode m.1 = some name).map Prod.snd := named_filter hms
  rw [lastMember, ← List.getLast?_map, ← hlast]
  split at hmatch <;> rename_i heq <;> cases hmatch <;> rw [heq] <;> rfl

end

end Json

end JsonTexts
