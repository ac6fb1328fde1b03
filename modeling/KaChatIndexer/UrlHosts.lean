import Mathlib.Data.Char
import Mathlib.Data.List.DropRight
import Mathlib.Data.List.Infix
import Mathlib.Data.List.TakeWhile
import Mathlib.Data.String.Basic

/-!
# The host of a web address

The URL grammar of the schemes `http` and `https`: how the authority is cut out of an address and
the host out of the authority. The readings of addresses between brackets, of dotted numbers and of
international names stay parameters.
-/
namespace KaChatIndexer.UrlHosts

/-- The readings that a URL parser rests on, each written out in its normal form. -/
structure HostReader where
  ipv6 : List Char → Option (List Char)
  ipv4 : List Char → Option (List Char)
  domainToAscii : List UInt8 → Option (List Char)

def isSlash (c : Char) : Bool := c == '/' || c == '\\'

def endsAuthority (c : Char) : Bool := isSlash c || c == '?' || c == '#'

def isC0OrSpace (c : Char) : Bool := c.toNat ≤ 0x20

/-- An address as a parser takes it up: without blanks around it, without tabs and line ends. -/
def clean (t : List Char) : List Char :=
  ((t.dropWhile isC0OrSpace).rdropWhile isC0OrSpace).filter fun c =>
    !(c == '\t' || c == '\n' || c == '\r')

theorem clean_self {t : List Char} (h : ∀ c ∈ t, isC0OrSpace c = false) : clean t = t := by
  have hstart : t.dropWhile isC0OrSpace = t := by
    cases t with
    | nil => rfl
    | cons c t => simp [h c (by simp)]
  have hend : t.rdropWhile isC0OrSpace = t := by
    rw [List.rdropWhile_eq_self_iff]
    intro hne
    simp [h _ (List.getLast_mem hne)]
  rw [clean, hstart, hend, List.filter_eq_self]
  intro c hc
  have hc := h c hc
  revert hc
  simp only [isC0OrSpace, decide_eq_false_iff_not, Bool.not_eq_true', Bool.or_eq_false_iff,
    beq_eq_false_iff_ne]
  intro hc
  refine ⟨⟨?_, ?_⟩, ?_⟩ <;> rintro rfl <;> exact hc (by decide)

/-- What follows the last separator, or everything. -/
def afterLast (sep : Char) (t : List Char) : List Char := t.rtakeWhile (· != sep)

/-- What stands before the first colon outside brackets. -/
def hostText : Bool → List Char → List Char
  | _, [] => []
  | inside, c :: cs =>
    if c = ':' ∧ inside = false then []
    else c :: hostText (if c = '[' then true else if c = ']' then false else inside) cs

/-- A port: a colon and digits up to 65535, or nothing. -/
def isPort (t : List Char) : Bool :=
  t.tail.all Char.isDigit && t.tail.foldl (fun n c => 10 * n + (c.toNat - 0x30)) 0 ≤ 65535

def hexValue (b : UInt8) : Option UInt8 :=
  if 0x30 ≤ b ∧ b ≤ 0x39 then some (b - 0x30)
  else if 0x61 ≤ b ∧ b ≤ 0x66 then some (b - 0x57)
  else if 0x41 ≤ b ∧ b ≤ 0x46 then some (b - 0x37)
  else none

def percentDecode : List UInt8 → List UInt8
  | [] => []
  | [c] => [c]
  | [c, d] => [c, d]
  | c :: d :: e :: rest =>
    match c == 0x25, hexValue d, hexValue e with
    | true, some hi, some lo => (16 * hi + lo) :: percentDecode rest
    | _, _, _ => c :: percentDecode (d :: e :: rest)

def utf8 (t : List Char) : List UInt8 := t.flatMap String.utf8EncodeChar

/-- Decimal digits, or a hexadecimal number after `0x`. -/
def isNumber : List Char → Bool
  | '0' :: 'x' :: digits | '0' :: 'X' :: digits =>
    digits.all fun c => c.isDigit || ('a' ≤ c && c ≤ 'f') || ('A' ≤ c && c ≤ 'F')
  | t => t != [] && t.all Char.isDigit

/-- Whether the last label is a number; one dot may follow it. -/
def endsInNumber (d : List Char) : Bool :=
  if afterLast '.' d = [] then isNumber (afterLast '.' d.dropLast) else isNumber (afterLast '.' d)

section
variable (r : HostReader)

def readDomain (t : List Char) : Option (List Char) :=
  (r.domainToAscii (percentDecode (utf8 t))).bind fun d =>
    if d = [] then none else if endsInNumber d then r.ipv4 d else some d

def readHost (t : List Char) : Option (List Char) :=
  if t.head? = some '[' then
    if t.getLast? = some ']' then r.ipv6 t.tail.dropLast else none
  else readDomain r t

/-- The host in an authority: behind the user, before the port. -/
def readAuthority (a : List Char) : Option (List Char) :=
  let host := hostText false (afterLast '@' a)
  if host = [] then none
  else if isPort ((afterLast '@' a).drop host.length) then readHost r host else none

/-- The host of an address, from what follows its scheme. -/
def readAddress (rest : List Char) : Option (List Char) :=
  readAuthority r ((rest.dropWhile isSlash).takeWhile (!endsAuthority ·))

end

/-- Letters and dots: the names that every reading leaves as they are, up to case. -/
def isPlain (c : Char) : Bool := c.isAlpha || c == '.'

def isIpv6Char (c : Char) : Bool :=
  c.isDigit || ('a' ≤ c && c ≤ 'f') || ('A' ≤ c && c ≤ 'F') || c == ':' || c == '.'

/-- What is documented of the readings: an IPv6 address is of hex digits, colons and dots; no name has
a bracket; plain labels at the end of a name stay, in lower case. -/
structure HostReader.Lawful (r : HostReader) : Prop where
  ipv6_chars : ∀ {t a : List Char}, r.ipv6 t = some a → ∀ c ∈ t, isIpv6Char c = true
  brackets : ∀ {b : List UInt8} {d : List Char}, r.domainToAscii b = some d → 0x5b ∉ b
  plain : ∀ {t d : List Char}, t.all isPlain → r.domainToAscii (utf8 t) = some d → d = t.map Char.toLower
  labels : ∀ {b : List UInt8} {t d : List Char}, t.all isPlain →
    r.domainToAscii (b ++ utf8 ('.' :: t)) = some d → '.' :: t.map Char.toLower <:+ d

/-! ## After the last separator -/

theorem afterLast_append_mem {sep : Char} {a b : List Char} (h : sep ∈ b) :
    afterLast sep (a ++ b) = afterLast sep b := by
  have hne : ¬(b.reverse.takeWhile (· != sep)).length = b.reverse.length := by
    intro hlen
    have hall := List.takeWhile_eq_self_iff.mp ((List.takeWhile_prefix _).eq_of_length hlen)
    simpa using hall sep (List.mem_reverse.mpr h)
  simp only [afterLast, List.rtakeWhile, List.reverse_append, List.takeWhile_append, if_neg hne]

theorem afterLast_append_not_mem {sep : Char} {a b : List Char} (h : sep ∉ b) :
    afterLast sep (a ++ b) = afterLast sep a ++ b := by
  have hself : b.reverse.takeWhile (· != sep) = b.reverse := by
    apply List.takeWhile_eq_self_iff.mpr
    intro c hc
    simpa using fun hcs : c = sep => h (hcs ▸ List.mem_reverse.mp hc)
  simp [afterLast, List.rtakeWhile, List.takeWhile_append, hself]

theorem afterLast_self {sep : Char} {t : List Char} (h : sep ∉ t) : afterLast sep t = t := by
  simpa [afterLast] using afterLast_append_not_mem (a := []) h

theorem afterLast_sep {sep : Char} {a b : List Char} :
    afterLast sep (a ++ sep :: b) = afterLast sep b := by
  by_cases h : sep ∈ b
  · rw [← List.singleton_append, ← List.append_assoc, afterLast_append_mem h]
  · rw [← List.singleton_append, ← List.append_assoc, afterLast_append_not_mem h, afterLast_self h]
    simp [afterLast]

/-- The last field of a text is what follows its last separator. -/
theorem splitOn_getLast (sep : Char) (t : List Char) :
    (t.splitOn sep).getLast? = some (afterLast sep t) := by
  by_cases h : sep ∈ t
  · obtain ⟨w, a, ht, hw⟩ := List.eq_append_cons_of_mem (List.mem_reverse.mpr h)
    have hsplit : t = a.reverse ++ sep :: w.reverse := by
      rw [← List.reverse_reverse t, ht]
      simp
    have hnot : sep ∉ w.reverse := fun hmem => hw (List.mem_reverse.mp hmem)
    rw [hsplit, List.splitOn_append_cons_self, List.splitOn_eq_singleton hnot, afterLast_sep,
      afterLast_self hnot]
    simp
  · rw [List.splitOn_eq_singleton h, afterLast_self h]
    rfl

/-! ## The host text -/

theorem takeWhile_prefix_hostText (inside : Bool) (t : List Char) :
    t.takeWhile (· != ':') <+: hostText inside t := by
  induction t generalizing inside with
  | nil => exact List.nil_prefix
  | cons c t ih =>
    by_cases hc : c = ':'
    · simp [hc]
    · rw [List.takeWhile_cons_of_pos (by simpa using hc), hostText, if_neg (fun h => hc h.1)]
      exact List.cons_prefix_cons.mpr ⟨rfl, ih _⟩

/-- A host without an opening bracket ends at the first colon. -/
theorem hostText_eq {t : List Char} (h : '[' ∉ hostText false t) :
    hostText false t = t.takeWhile (· != ':') := by
  induction t with
  | nil => rfl
  | cons c t ih =>
    by_cases hc : c = ':'
    · simp [hc, hostText]
    · rw [hostText, if_neg (fun h => hc h.1)] at h ⊢
      rw [List.takeWhile_cons_of_pos (by simpa using hc)]
      have hbracket : c ≠ '[' := fun hb => h (by simp [hb])
      simp only [if_neg hbracket, ite_self] at h ⊢
      rw [ih fun hmem => h (List.mem_cons_of_mem _ hmem)]

/-! ## Percent decoding -/

theorem percentDecode_cons {c : UInt8} (hc : c ≠ 0x25) (b : List UInt8) :
    percentDecode (c :: b) = c :: percentDecode b := by
  match b with
  | [] => rfl
  | [d] => rfl
  | d :: e :: rest => simp [percentDecode, hc]

theorem percentDecode_id {b : List UInt8} (h : 0x25 ∉ b) : percentDecode b = b := by
  induction b with
  | nil => rfl
  | cons c b ih =>
    rw [percentDecode_cons (fun hc => h (by simp [hc])), ih fun hmem => h (List.mem_cons_of_mem _ hmem)]

/-- A byte with no escape behind it stands for itself. -/
theorem percentDecode_literal {c : UInt8} {b : List UInt8}
    (h : ∀ d e rest, b = d :: e :: rest → hexValue d = none ∨ hexValue e = none) :
    percentDecode (c :: b) = c :: percentDecode b := by
  match b with
  | [] => rfl
  | [d] => rfl
  | d :: e :: rest =>
    rcases h d e rest rfl with hd | he
    · simp [percentDecode, hd]
    · simp [percentDecode, he]

/-- What starts with no hex digit completes no escape. -/
theorem percentDecode_append {c : UInt8} (hc : hexValue c = none) (a b : List UInt8) :
    percentDecode (a ++ c :: b) = percentDecode a ++ percentDecode (c :: b) := by
  have hsecond : ∀ e, percentDecode (e :: c :: b) = e :: percentDecode (c :: b) := fun e =>
    percentDecode_literal fun _ _ _ h => by
      simp only [List.cons.injEq] at h
      exact .inl (h.1 ▸ hc)
  fun_induction percentDecode a with
  | case1 => rfl
  | case2 d => exact hsecond d
  | case3 d e =>
    have hfirst : percentDecode (d :: e :: c :: b) = d :: percentDecode (e :: c :: b) :=
      percentDecode_literal fun _ _ _ h => by
        simp only [List.cons.injEq] at h
        exact .inr (h.2.1 ▸ hc)
    exact hfirst.trans (congrArg _ (hsecond e))
  | case4 d e f rest hi lo hlo hhi hd ih => simp [percentDecode, hd, hhi, hlo, ih]
  | case5 d e f rest hcase ih =>
    have hfirst : percentDecode (d :: e :: f :: rest ++ c :: b) =
        d :: percentDecode (e :: f :: rest ++ c :: b) := by
      simp only [List.cons_append, percentDecode]
    rw [hfirst, ih]
    rfl

/-- An opening bracket is no escape and no part of one. -/
theorem bracket_percentDecode {b : List UInt8} (h : 0x5b ∈ b) : 0x5b ∈ percentDecode b := by
  fun_induction percentDecode b with
  | case1 => exact h
  | case2 => exact h
  | case3 => exact h
  | case4 d e f rest hi lo hlo hhi hd ih =>
    refine List.mem_cons_of_mem _ (ih ?_)
    simp only [List.mem_cons] at h
    rcases h with rfl | rfl | rfl | h
    · cases hd
    · cases hhi
    · cases hlo
    · exact h
  | case5 d e f rest hcase ih =>
    rcases List.mem_cons.mp h with rfl | h
    · simp
    · exact List.mem_cons_of_mem _ (ih h)

/-! ## Plain names -/

theorem utf8_append (a b : List Char) : utf8 (a ++ b) = utf8 a ++ utf8 b := List.flatMap_append

theorem utf8_low {c : Char} (h : c.toNat ≤ 0x7f) (t : List Char) :
    utf8 (c :: t) = UInt8.ofNat c.toNat :: utf8 t := by
  have hcons : utf8 (c :: t) = String.utf8EncodeChar c ++ utf8 t := List.flatMap_cons
  rw [hcons]
  simp [String.utf8EncodeChar, h]

/-- A character beyond ASCII starts with a byte beyond ASCII. -/
theorem utf8_high {c : Char} (h : 0x7f < c.toNat) (t : List Char) :
    ∃ b rest, utf8 (c :: t) = b :: rest ∧ 0x80 ≤ b.toNat := by
  have hcons : utf8 (c :: t) = String.utf8EncodeChar c ++ utf8 t := List.flatMap_cons
  rw [hcons]
  simp only [String.utf8EncodeChar, Char.toNat_val, if_neg (show ¬c.toNat ≤ 0x7f by omega)]
  split_ifs with htwo hthree
  · exact ⟨_, _, rfl, by simp; omega⟩
  · exact ⟨_, _, rfl, by simp; omega⟩
  · exact ⟨_, _, rfl, by simp; omega⟩

/-- An ASCII text stands at the front of another exactly when its bytes do. -/
theorem prefix_utf8 {s t : List Char} (hs : ∀ c ∈ s, c.toNat ≤ 0x7f) :
    utf8 s <+: utf8 t ↔ s <+: t := by
  induction s generalizing t with
  | nil => exact iff_of_true List.nil_prefix List.nil_prefix
  | cons c s ih =>
    have hc := hs c List.mem_cons_self
    rw [utf8_low hc]
    cases t with
    | nil => simp [utf8]
    | cons d t =>
      by_cases hd : d.toNat ≤ 0x7f
      · have hbyte : UInt8.ofNat c.toNat = UInt8.ofNat d.toNat ↔ c = d := by
          constructor
          · intro h
            have hval := congrArg UInt8.toNat h
            simp only [UInt8.toNat_ofNat'] at hval
            exact Char.toNat_inj.mp (by omega)
          · rintro rfl
            rfl
        rw [utf8_low hd, List.cons_prefix_cons, List.cons_prefix_cons, hbyte,
          ih fun x hx => hs x (List.mem_cons_of_mem c hx)]
      · obtain ⟨b, rest, heq, hb⟩ := utf8_high (Nat.lt_of_not_le hd) t
        rw [heq, List.cons_prefix_cons, List.cons_prefix_cons]
        refine iff_of_false (fun h => ?_) (fun h => hd (h.1 ▸ hc))
        have hval := congrArg UInt8.toNat h.1
        simp only [UInt8.toNat_ofNat'] at hval
        omega

theorem utf8_ascii {t : List Char} (ht : ∀ c ∈ t, c.toNat ≤ 0x7f) :
    utf8 t = t.map fun c => UInt8.ofNat c.toNat := by
  induction t with
  | nil => rfl
  | cons c t ih =>
    rw [utf8_low (ht c List.mem_cons_self), ih fun x hx => ht x (List.mem_cons_of_mem c hx), List.map_cons]

theorem ascii_of_utf8 {t : List Char} (h : ∀ b ∈ utf8 t, b.toNat ≤ 0x7f) : ∀ c ∈ t, c.toNat ≤ 0x7f := by
  induction t with
  | nil => nofun
  | cons c t ih =>
    have hc : c.toNat ≤ 0x7f := by
      by_contra hhigh
      obtain ⟨b, rest, heq, hb⟩ := utf8_high (Nat.lt_of_not_le hhigh) t
      have hlow := h b (heq ▸ List.mem_cons_self)
      omega
    rw [utf8_low hc] at h
    exact List.forall_mem_cons.mpr ⟨hc, ih fun b hb => h b (List.mem_cons_of_mem _ hb)⟩

theorem isUpper_iff {c : Char} : c.isUpper = true ↔ 0x41 ≤ c.toNat ∧ c.toNat ≤ 0x5a :=
  decide_eq_true_iff

theorem isLower_iff {c : Char} : c.isLower = true ↔ 0x61 ≤ c.toNat ∧ c.toNat ≤ 0x7a := by
  change (decide (c.val ≥ 0x61) && decide (c.val ≤ 0x7a)) = true ↔ _
  rw [Bool.and_eq_true, decide_eq_true_eq, decide_eq_true_eq]
  exact Iff.rfl

theorem isAlpha_iff {c : Char} : c.isAlpha = true ↔ c.isUpper = true ∨ c.isLower = true :=
  Bool.or_eq_true_iff

theorem plain_range {c : Char} (h : isPlain c = true) : c.toNat ≤ 0x7f ∧ c.toNat ≠ 0x25 := by
  simp only [isPlain, Bool.or_eq_true, isAlpha_iff, isUpper_iff, isLower_iff, beq_iff_eq] at h
  rcases h with (⟨hlow, hhigh⟩ | ⟨hlow, hhigh⟩) | rfl
  · omega
  · omega
  · decide

theorem plain_of_toLower {c : Char} (h : isPlain c.toLower = true) : isPlain c = true := by
  by_cases hup : c.isUpper
  · have halpha : c.isAlpha = true := isAlpha_iff.mpr (.inl hup)
    simp [isPlain, halpha]
  · have hself : c.toLower = c := dif_neg fun hrange => hup (isUpper_iff.mpr hrange)
    rwa [hself] at h

theorem percent_not_mem {t : List Char} (h : t.all isPlain) : 0x25 ∉ utf8 t := by
  intro hmem
  obtain ⟨c, hc, hbyte⟩ := List.mem_flatMap.mp hmem
  obtain ⟨hlow, hne⟩ := plain_range (List.all_eq_true.mp h c hc)
  simp only [String.utf8EncodeChar, Char.toNat_val, hlow, if_true, List.mem_singleton] at hbyte
  have hval := congrArg UInt8.toNat hbyte
  simp at hval
  omega

theorem bracket_utf8 {t : List Char} (h : '[' ∈ t) : 0x5b ∈ utf8 t :=
  List.mem_flatMap.mpr ⟨'[', h, by decide⟩

/-- A name whose last label is no number. -/
def isName (t : List Char) : Bool :=
  t.all isPlain && afterLast '.' t != [] && !isNumber (afterLast '.' t)

theorem endsInNumber_name {t : List Char} (h : isName t = true) (x : List Char) :
    endsInNumber t = false ∧ endsInNumber (x ++ '.' :: t) = false := by
  simp only [isName, Bool.and_eq_true, bne_iff_ne, Bool.not_eq_true'] at h
  constructor
  · rw [endsInNumber, if_neg h.1.2, h.2]
  · rw [endsInNumber, afterLast_sep, if_neg h.1.2, h.2]

theorem isName.plain {t name : List Char} (h : isName name = true) (ht : t.map Char.toLower = name) :
    t.all isPlain = true := by
  simp only [isName, Bool.and_eq_true] at h
  rw [List.all_eq_true]
  intro c hc
  exact plain_of_toLower (List.all_eq_true.mp h.1.1 _ (ht ▸ List.mem_map_of_mem hc))

section
variable {r : HostReader}

/-- A bracket that does not hold an IPv6 address spoils the host. -/
theorem readHost_bracket (hr : r.Lawful) {t : List Char} {c : Char} (hbracket : '[' ∈ t) (hc : c ∈ t)
    (hchar : isIpv6Char c = false) (hopen : c ≠ '[') (hclose : c ≠ ']') : readHost r t = none := by
  unfold readHost
  split
  · next hhead =>
    split
    · next hlast =>
      obtain ⟨rest, rfl⟩ : ∃ rest, t = '[' :: rest := List.head?_eq_some_iff.mp hhead
      have hrest : c ∈ rest := (List.mem_cons.mp hc).resolve_left hopen
      have hinner : c ∈ rest.dropLast := by
        have hlast : rest.getLast? = some ']' := by
          cases rest with
          | nil => cases hrest
          | cons d rest => exact hlast
        rw [← List.dropLast_append_getLast? ']' hlast] at hrest
        simpa [hclose] using hrest
      cases hread : r.ipv6 rest.dropLast with
      | none => exact hread
      | some a => exact absurd (hr.ipv6_chars hread c hinner) (by simp [hchar])
    · rfl
  · rw [readDomain]
    cases hread : r.domainToAscii (percentDecode (utf8 t)) with
    | none => rfl
    | some d => exact absurd (bracket_percentDecode (bracket_utf8 hbracket)) (hr.brackets hread)

/-- A plain name is read as itself, in lower case. -/
theorem readHost_name (hr : r.Lawful) {t name host : List Char} (hname : isName name = true)
    (ht : t.map Char.toLower = name) (h : readHost r t = some host) : host = name := by
  have hplain := isName.plain hname ht
  have hhead : t.head? ≠ some '[' := fun hhead =>
    absurd (List.all_eq_true.mp hplain _ (List.mem_of_head? hhead)) (by decide)
  rw [readHost, if_neg hhead, readDomain, percentDecode_id (percent_not_mem hplain)] at h
  obtain ⟨d, hd, hhost⟩ := Option.bind_eq_some_iff.mp h
  obtain rfl : d = name := (hr.plain hplain hd).trans ht
  rw [(endsInNumber_name hname []).1] at hhost
  split at hhost
  · cases hhost
  · simpa using hhost.symm

/-- The plain labels at the end of a host stay. -/
theorem readHost_labels (hr : r.Lawful) {x t name host : List Char} (hname : isName name = true)
    (ht : t.map Char.toLower = name) (h : readHost r (x ++ '.' :: t) = some host) :
    '.' :: name <:+ host := by
  have hplain := isName.plain hname ht
  have hlast : (x ++ '.' :: t).getLast? ≠ some ']' := by
    intro hlast
    have hmem : ']' ∈ '.' :: t := by
      rw [List.getLast?_append_of_ne_nil _ (by simp)] at hlast
      exact List.mem_of_getLast? hlast
    have hclose := List.all_eq_true.mp hplain _ ((List.mem_cons.mp hmem).resolve_left (by decide))
    exact absurd hclose (by decide)
  rw [readHost, if_neg hlast] at h
  split at h
  · cases h
  · have hdecode : percentDecode (utf8 (x ++ '.' :: t)) =
        percentDecode (utf8 x) ++ utf8 ('.' :: t) := by
      have hdot : utf8 ('.' :: t) = 0x2e :: utf8 t := rfl
      rw [utf8_append, hdot, percentDecode_append (by decide), percentDecode_cons (by decide),
        percentDecode_id (percent_not_mem hplain)]
    rw [readDomain, hdecode] at h
    obtain ⟨d, hd, hhost⟩ := Option.bind_eq_some_iff.mp h
    have hsuffix := hr.labels hplain hd
    rw [ht] at hsuffix
    obtain ⟨y, rfl⟩ := hsuffix
    rw [(endsInNumber_name hname y).2] at hhost
    split at hhost
    · cases hhost
    · cases hhost
      exact List.suffix_append y _

/-- The host of an authority ends at the first colon, unless it is an IPv6 address. -/
theorem readAuthority_host (hr : r.Lawful) {a host : List Char} {c : Char}
    (hc : c ∈ (afterLast '@' a).takeWhile (· != ':')) (hchar : isIpv6Char c = false)
    (hopen : c ≠ '[') (hclose : c ≠ ']') (h : readAuthority r a = some host) :
    readHost r ((afterLast '@' a).takeWhile (· != ':')) = some host := by
  have hread : readHost r (hostText false (afterLast '@' a)) = some host := by
    simp only [readAuthority] at h
    split at h
    · cases h
    · split at h
      · exact h
      · cases h
  have hmem := (takeWhile_prefix_hostText false (afterLast '@' a)).mem hc
  have hbracket : '[' ∉ hostText false (afterLast '@' a) := by
    intro hbracket
    rw [readHost_bracket hr hbracket hmem hchar hopen hclose] at hread
    cases hread
  rwa [hostText_eq hbracket] at hread

end

end KaChatIndexer.UrlHosts
