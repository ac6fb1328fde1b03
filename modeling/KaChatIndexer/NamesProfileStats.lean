import KaChatIndexer.JsonTexts
import KaChatIndexer.NamesSample
import KaChatIndexer.UrlHosts
import Mathlib.Algebra.BigOperators.Group.List.Lemmas
import Mathlib.Data.List.Find
import Mathlib.Data.List.Forall2
import Mathlib.Data.List.ReduceOption

/-!
# Profile statistics

Profiles are served as `parse_profile` reads them; the statistics are counted in the database, by the
same rules written again in SQL. The two agree on a stored profile that is an object, whose strings the
database can all read, and none of whose kept fields is written with what looks like the escape of NUL.
-/
namespace KaChatIndexer.NamesProfileStats
open ByteStrings NamesState NamesEnv NamesProfile JsonTexts
open UrlHosts (utf8)

inductive Platform
  | x | youtube | discord | telegram | twitch | github | facebook | instagram | tiktok | linkedin
  deriving DecidableEq

def platforms : List (Bytes × Platform) :=
  [(xHost, .x), (youtubeHost, .youtube), (discordHost, .discord), (telegramHost, .telegram),
    (twitchHost, .twitch), (githubHost, .github), (facebookHost, .facebook),
    (instagramHost, .instagram), (tiktokHost, .tiktok), (linkedinHost, .linkedin)]

/-- The platform a stored profile link points at. -/
def platformOf (url : Bytes) : Option Platform :=
  (platforms.find? fun h => h.1.isPrefixOf url).map Prod.snd

inductive ProfileField
  | avatar | banner | bio | linktree | primaryName
  deriving DecidableEq

namespace ProfileField

def key : ProfileField → Chars
  | avatar => "avatar".toList
  | banner => "banner".toList
  | bio => "bio".toList
  | linktree => "linktree".toList
  | primaryName => "primaryName".toList

/-- The place in the structure that is read. -/
def place : ProfileField → ℕ
  | avatar => 1
  | banner => 2
  | bio => 3
  | linktree => 4
  | primaryName => 5

/-- The fields whose links are counted by platform. -/
def links : List ProfileField := [avatar, banner, bio]

end ProfileField

def served (p : Profile) : ProfileField → Option Bytes
  | .avatar => p.avatar
  | .banner => p.banner
  | .bio => p.bio
  | .linktree => p.linktree
  | .primaryName => p.primaryName

/-! ## As the server reads a profile -/

def readField (j : Json) (f : ProfileField) : Option (Option Bytes) :=
  (j.field f.key f.place Json.readText).map (Option.map utf8)

/-- The derived reader of `RawProfile`. -/
def readRaw (j : Json) : Option RawProfile := do
  if !j.fits 6 then none
  let v ← j.field "v".toList 0 (Json.readUint 32)
  let avatar ← readField j .avatar
  let banner ← readField j .banner
  let bio ← readField j .bio
  let linktree ← readField j .linktree
  let primaryName ← readField j .primaryName
  some ⟨v.map UInt32.ofNat, avatar, banner, bio, linktree, primaryName⟩

section
variable (env : Env) (read : Bytes → Option Json)

/-- `serde_json::from_str` over a reader of the JSON grammar. -/
def serde : Env := { env with rawProfile := fun text => (read text).bind readRaw }

def accepted (profile : Bytes) : Option Profile := parseProfile (serde env read) profile

end

/-! ## As the database reads it -/

/-- A row of `names_profiles`. -/
structure StatsRow where
  profile : Bytes
  createdAt : Option ℤ

/-- A row of the query's table `p`. -/
structure CteRow where
  createdAt : ℤ
  avatar : Option Chars
  banner : Option Chars
  bio : Option Chars
  linktree : Option Chars
  primaryName : Option Chars

def CteRow.get (r : CteRow) : ProfileField → Option Chars
  | .avatar => r.avatar
  | .banner => r.banner
  | .bio => r.bio
  | .linktree => r.linktree
  | .primaryName => r.primaryName

def nulEscape : Chars := "\\u0000".toList

/-- `CASE WHEN strpos((j->'f')::text, '\u0000') = 0 THEN j->>'f' END` -/
def fieldText (j : Json) (f : ProfileField) : Except Json.DbError (Option Chars) := do
  match ← j.arrow f.key with
  | none => return none
  | some v => if nulEscape <:+: v.text then return none else j.arrowText f.key

/-- `COALESCE(json_typeof(j->'f'), 'null') IN ('string', 'null')` -/
def stringOrNull (j : Json) (f : ProfileField) : Except Json.DbError Bool := do
  let v ← j.arrow f.key
  return v.all fun v => v.kind = .string || v.kind = .null

def btrim (t : Chars) : Chars := ((t.dropWhile (· = ' ')).reverse.dropWhile (· = ' ')).reverse

/-- `btrim((j->'v')::text) = '1'` -/
def isV1 (j : Json) : Except Json.DbError Bool := do
  let v ← j.arrow "v".toList
  return v.any fun v => btrim v.text = ['1']

/-- The condition of `p`, from left to right. -/
def selected (j : Json) : Except Json.DbError Bool :=
  if j.kind = .object then do
    if ← isV1 j then
      [.avatar, .banner, .bio, .linktree, .primaryName].allM (stringOrNull j)
    else return false
  else return false

section
variable (read : Bytes → Option Json)

def cteRow (row : StatsRow) : Except Json.DbError (Option CteRow) :=
  if maxProfileBytes < row.profile.length then return none
  else match read row.profile with
    | none => .error .badText
    | some j => do
      if ← selected j then
        let avatar ← fieldText j .avatar
        let banner ← fieldText j .banner
        let bio ← fieldText j .bio
        let linktree ← fieldText j .linktree
        let primaryName ← fieldText j .primaryName
        return some ⟨row.createdAt.getD 0, avatar, banner, bio, linktree, primaryName⟩
      else return none

/-- `PROFILES_CTE` -/
def profilesCte (rows : List StatsRow) : Except Json.DbError (List CteRow) := do
  return (← rows.mapM (cteRow read)).reduceOption

end

/-- `LIKE 'https://linktr.ee/_%'` -/
def likeLinktree (t : Chars) : Bool :=
  "https://linktr.ee/".toList.isPrefixOf t && "https://linktr.ee/".length < t.length

/-- `[a-z0-9]` -/
def lowerOrDigit (c : Char) : Bool := ('a' ≤ c && c ≤ 'z') || ('0' ≤ c && c ≤ '9')

/-- `~ '^[a-z0-9]([a-z0-9-]{0,30}[a-z0-9])?$'` -/
def namePattern : Chars → Bool
  | [] => false
  | c :: rest => lowerOrDigit c && (rest = [] ||
      (rest.length ≤ 31 && (rest.dropLast.all fun c => lowerOrDigit c || c = '-') &&
        rest.getLast?.any lowerOrDigit))

/-- `substring(url from '^https://[^/]+/')` -/
def linkPrefix (url : Chars) : Option Chars :=
  if "https://".toList.isPrefixOf url then
    let rest := url.drop 8
    let host := rest.takeWhile (· ≠ '/')
    if host = [] ∨ host.length = rest.length then none
    else some ("https://".toList ++ host ++ ['/'])
  else none

/-- The field and prefix of each link with a handle after the prefix. -/
def linkPairs (rows : List CteRow) : List (ProfileField × Chars) :=
  rows.flatMap fun r => ProfileField.links.filterMap fun f =>
    (r.get f).bind fun url => (linkPrefix url).bind fun x =>
      if x.length < url.length then some (f, x) else none

/-- `GROUP BY v.field, x.prefix` -/
def groups (rows : List CteRow) : List ((ProfileField × Chars) × ℕ) :=
  (linkPairs rows).dedup.map fun x => (x, (linkPairs rows).countP (· = x))

/-- `withAvatar` to `withPrimaryName` are the counts `kept`. -/
@[ext]
structure ProfileCounts where
  total : ℕ
  new24h : ℕ
  new7d : ℕ
  new30d : ℕ
  kept : ProfileField → ℕ
  platforms : ProfileField → Platform → ℕ

/-- `json!({ "v": 1, field: url })` -/
def linkJson (f : ProfileField) (url : Chars) : Json :=
  .object [(escape f.key, .string (escape url)), (escape "v".toList, .number ['1'])]

def day : ℤ := 86400000

section
variable (env : Env) (read : Bytes → Option Json)

/-- A group's links count where `parse_profile` keeps such a link. -/
def addLinks (c : ProfileCounts) (g : (ProfileField × Chars) × ℕ) : ProfileCounts :=
  match accepted env read (utf8 (linkJson g.1.1 (g.1.2 ++ ['x'])).text) with
  | none => c
  | some p =>
    if g.1.1 ∈ ProfileField.links ∧ (served p g.1.1).isSome then
      { c with
        kept := fun f => if f = g.1.1 then c.kept f + g.2 else c.kept f
        platforms := fun f platform =>
          if f = g.1.1 ∧ platformOf (utf8 g.1.2) = some platform then c.platforms f platform + g.2
          else c.platforms f platform }
    else c

/-- The counters, from the queries' answers; groups come in any order. -/
def computeStats (order : List ((ProfileField × Chars) × ℕ) → List ((ProfileField × Chars) × ℕ))
    (now : ℤ) (rows : List StatsRow) : Except Json.DbError ProfileCounts := do
  let p ← profilesCte read rows
  let since (t : ℤ) := p.countP fun r => t ≤ r.createdAt
  let totals : ProfileCounts :=
    { total := p.length
      new24h := since (now - day)
      new7d := since (now - 7 * day)
      new30d := since (now - 30 * day)
      kept := fun
        | .linktree => p.countP fun r => r.linktree.any likeLinktree
        | .primaryName => p.countP fun r => r.primaryName.any namePattern
        | _ => 0
      platforms := fun _ _ => 0 }
  return (order (groups p)).foldl (addLinks env read) totals

/-- The counts over what `parse_profile` gives for each row. -/
def servedCounts (now : ℤ) (rows : List StatsRow) : ProfileCounts :=
  let since (t : ℤ) := rows.countP fun row =>
    (accepted env read row.profile).isSome && t ≤ row.createdAt.getD 0
  { total := rows.countP fun row => (accepted env read row.profile).isSome
    new24h := since (now - day)
    new7d := since (now - 7 * day)
    new30d := since (now - 30 * day)
    kept := fun f => rows.countP fun row => ((accepted env read row.profile).bind (served · f)).isSome
    platforms := fun f platform =>
      if f ∈ ProfileField.links then
        rows.countP fun row =>
          ((accepted env read row.profile).bind (served · f)).bind platformOf = some platform
      else 0 }

end

/-! ## Links by their prefix -/

theorem linkPrefix_https (rest : Chars) : linkPrefix ("https://".toList ++ rest) =
    if rest.takeWhile (· ≠ '/') = [] ∨ (rest.takeWhile (· ≠ '/')).length = rest.length then none
    else some ("https://".toList ++ rest.takeWhile (· ≠ '/') ++ ['/']) := by
  have hdrop : ("https://".toList ++ rest).drop 8 = rest := List.drop_left' rfl
  rw [linkPrefix, if_pos (List.isPrefixOf_iff_prefix.mpr (List.prefix_append _ _)), hdrop]

theorem linkPrefix_iff {url x : Chars} : linkPrefix url = some x ↔
    ∃ host, host ≠ [] ∧ '/' ∉ host ∧ x = "https://".toList ++ host ++ ['/'] ∧ x <+: url := by
  constructor
  · intro h
    have hhttps : "https://".toList <+: url := by
      by_contra hnot
      rw [linkPrefix, if_neg fun hpre => hnot (List.isPrefixOf_iff_prefix.mp hpre)] at h
      cases h
    obtain ⟨rest, rfl⟩ := hhttps
    rw [linkPrefix_https] at h
    have hnone : ¬(rest.takeWhile (· ≠ '/') = [] ∨ (rest.takeWhile (· ≠ '/')).length = rest.length) := by
      intro hnone
      rw [if_pos hnone] at h
      cases h
    rw [if_neg hnone] at h
    obtain ⟨hne, hlen⟩ := not_or.mp hnone
    have hslash : ∀ c ∈ rest.takeWhile (· ≠ '/'), c ≠ '/' := fun c hc =>
      of_decide_eq_true (List.mem_takeWhile_imp (p := fun c => decide (c ≠ '/')) hc)
    refine ⟨_, hne, fun hmem => hslash _ hmem rfl, (Option.some.inj h).symm, ?_⟩
    rw [← Option.some.inj h, List.append_assoc]
    refine (List.prefix_append_right_inj _).mpr ?_
    have hsplit := List.takeWhile_append_dropWhile (p := fun c => decide (c ≠ '/')) (l := rest)
    cases hrest : rest.dropWhile (· ≠ '/') with
    | nil =>
      rw [hrest, List.append_nil] at hsplit
      exact absurd (congrArg List.length hsplit) hlen
    | cons c tail =>
      have hc : c = '/' := by
        have hhead := List.head?_dropWhile_not (fun c => decide (c ≠ '/')) rest
        rw [hrest, List.head?_cons] at hhead
        simpa using hhead
      subst hc
      rw [hrest] at hsplit
      exact ⟨tail, by rw [List.append_assoc]; exact hsplit⟩
  · rintro ⟨host, hne, hslash, rfl, rest, rfl⟩
    have htake : (host ++ '/' :: rest).takeWhile (· ≠ '/') = host := by
      rw [List.takeWhile_append_of_pos fun c hc => decide_eq_true (ne_of_mem_of_not_mem hc hslash)]
      simp
    have hurl : "https://".toList ++ host ++ ['/'] ++ rest = "https://".toList ++ (host ++ '/' :: rest) := by
      simp only [List.append_assoc, List.cons_append, List.nil_append]
    rw [hurl, linkPrefix_https, htake, if_neg]
    simp [hne]

theorem prefix_of_linkPrefix {url x : Chars} (h : linkPrefix url = some x) : x <+: url := by
  obtain ⟨_, _, _, _, hx⟩ := linkPrefix_iff.mp h
  exact hx

/-- A prefix is the prefix of whatever it stands at the front of. -/
theorem linkPrefix_mono {url url' x : Chars} (h : linkPrefix url = some x) (hx : x <+: url') :
    linkPrefix url' = some x := by
  obtain ⟨host, hne, hslash, rfl, -⟩ := linkPrefix_iff.mp h
  exact linkPrefix_iff.mpr ⟨host, hne, hslash, rfl, hx⟩

/-- A text that is a prefix, in ASCII. -/
def isPrefixText (s : Chars) : Bool := (s.all fun c => c.toNat ≤ 0x7f) && linkPrefix s = some s

def hostText (h : Bytes) : Chars := h.map fun b => Char.ofNat b.toNat

theorem utf8_hostText {h : Bytes} (hmem : h ∈ avatarHosts) :
    utf8 (hostText h) = h ∧ isPrefixText (hostText h) = true := by
  have hall : avatarHosts.all (fun h => utf8 (hostText h) = h && isPrefixText (hostText h)) = true := by decide
  have hself := List.all_eq_true.mp hall h hmem
  rw [Bool.and_eq_true, decide_eq_true_eq] at hself
  exact hself

theorem host_text {h : Bytes} (hmem : h ∈ avatarHosts) : ∃ s, h = utf8 s ∧ isPrefixText s = true :=
  ⟨hostText h, (utf8_hostText hmem).1.symm, (utf8_hostText hmem).2⟩

section
variable {s u x : Chars}

theorem prefix_host (hs : isPrefixText s = true) : (utf8 s).isPrefixOf (utf8 u) = true ↔ linkPrefix u = some s := by
  obtain ⟨hascii, hself⟩ := Bool.and_eq_true_iff.mp hs
  have hself : linkPrefix s = some s := of_decide_eq_true hself
  have hascii : ∀ c ∈ s, c.toNat ≤ 0x7f := fun c hc => of_decide_eq_true (List.all_eq_true.mp hascii c hc)
  rw [List.isPrefixOf_iff_prefix, UrlHosts.prefix_utf8 hascii]
  exact ⟨linkPrefix_mono hself, prefix_of_linkPrefix⟩

theorem utf8_length_lt (h : s <+: u) : (utf8 s).length < (utf8 u).length ↔ s.length < u.length := by
  obtain ⟨rest, rfl⟩ := h
  rw [UrlHosts.utf8_append, List.length_append, List.length_append]
  cases rest with
  | nil => simp [utf8]
  | cons c rest =>
    have hpos : 0 < (utf8 (c :: rest)).length := by
      simp only [utf8, List.flatMap_cons, List.length_append, String.length_utf8EncodeChar]
      have := c.utf8Size_pos
      omega
    simp only [List.length_cons]
    omega

/-- A link is allowed when its prefix is a host and a handle follows. -/
theorem allowed_iff {hosts : List Bytes} (hsub : hosts ⊆ avatarHosts) :
    allowed (utf8 u) hosts = true ↔ ∃ x, linkPrefix u = some x ∧ x.length < u.length ∧ utf8 x ∈ hosts := by
  unfold allowed
  rw [List.any_eq_true]
  constructor
  · rintro ⟨h, hmem, hallowed⟩
    obtain ⟨s, rfl, hs⟩ := host_text (hsub hmem)
    rw [Bool.and_eq_true, decide_eq_true_eq, prefix_host hs] at hallowed
    exact ⟨s, hallowed.1, (utf8_length_lt (prefix_of_linkPrefix hallowed.1)).mp hallowed.2, hmem⟩
  · rintro ⟨x, hx, hlen, hmem⟩
    refine ⟨utf8 x, hmem, ?_⟩
    rw [Bool.and_eq_true, decide_eq_true_eq, utf8_length_lt (prefix_of_linkPrefix hx)]
    refine ⟨?_, hlen⟩
    obtain ⟨rest, rfl⟩ := prefix_of_linkPrefix hx
    rw [UrlHosts.utf8_append]
    exact List.isPrefixOf_iff_prefix.mpr (List.prefix_append _ _)

/-- The platform of a link is that of its prefix. -/
theorem platformOf_link (h : linkPrefix u = some x) : platformOf (utf8 u) = platformOf (utf8 x) := by
  have hself : linkPrefix x = some x := linkPrefix_mono h (List.prefix_refl x)
  refine congrArg (Option.map Prod.snd) (List.find?_congr fun p hp => ?_)
  have hhost : p.1 ∈ avatarHosts := List.mem_map_of_mem (f := Prod.fst) hp
  obtain ⟨s, hs, htext⟩ := host_text hhost
  rw [hs, Bool.eq_iff_iff, prefix_host htext, prefix_host htext, h, hself]

end

/-! ## The rules of each field -/

section
variable {t u : Chars}

theorem likeLinktree_iff : likeLinktree t = allowed (utf8 t) [linktreePrefix] := by
  have hhost : linktreePrefix = utf8 "https://linktr.ee/".toList := by decide
  have hall : ("https://linktr.ee/".toList.all fun c => c.toNat ≤ 0x7f) = true := by decide
  have hascii : ∀ c ∈ "https://linktr.ee/".toList, c.toNat ≤ 0x7f := fun c hc =>
    of_decide_eq_true (List.all_eq_true.mp hall c hc)
  rw [Bool.eq_iff_iff]
  simp only [likeLinktree, allowed, List.any_cons, List.any_nil, Bool.or_false, Bool.and_eq_true,
    decide_eq_true_eq, hhost, List.isPrefixOf_iff_prefix, UrlHosts.prefix_utf8 hascii]
  exact and_congr_right fun h => (utf8_length_lt h).symm

theorem nameByte_low {c : Char} (h : c.toNat ≤ 0x7f) :
    isNameByte (UInt8.ofNat c.toNat) = (lowerOrDigit c || c = '-') := by
  have hall : ((List.range 128).all fun n => isNameByte (UInt8.ofNat n) =
      (lowerOrDigit (Char.ofNat n) || Char.ofNat n = '-')) = true := by decide +kernel
  have hc := List.all_eq_true.mp hall c.toNat (List.mem_range.mpr (by omega))
  rw [decide_eq_true_eq, Char.ofNat_toNat] at hc
  exact hc

theorem isNameByte_le {b : UInt8} (h : isNameByte b = true) : b.toNat ≤ 0x7f := by
  simp only [isNameByte, Bool.or_eq_true, Bool.and_eq_true, decide_eq_true_eq, beq_iff_eq,
    UInt8.le_iff_toNat_le] at h
  rcases h with (⟨-, h⟩ | ⟨-, h⟩) | rfl
  · exact h.trans (by decide)
  · exact h.trans (by decide)
  · decide

def nameChar (c : Char) : Bool := lowerOrDigit c || c = '-'

theorem lowerOrDigit_iff {c : Char} : lowerOrDigit c = true ↔ nameChar c = true ∧ c ≠ '-' := by
  by_cases hc : c = '-'
  · subst hc
    decide
  · simp [nameChar, hc]

theorem hyphen_byte {c : Char} (h : c.toNat ≤ 0x7f) : UInt8.ofNat c.toNat = 0x2d ↔ c = '-' := by
  constructor
  · intro hbyte
    have hval := congrArg UInt8.toNat hbyte
    simp only [UInt8.toNat_ofNat'] at hval
    exact Char.toNat_inj.mp (show c.toNat = 45 by have : (0x2d : UInt8).toNat = 45 := rfl; omega)
  · rintro rfl
    rfl

/-- A valid name, by its characters. -/
theorem isValidName_utf8 : isValidName (utf8 t) = true ↔ t ≠ [] ∧ t.length ≤ 32 ∧ t.head? ≠ some '-' ∧
    t.getLast? ≠ some '-' ∧ ∀ c ∈ t, nameChar c = true := by
  have hbytes (hascii : ∀ c ∈ t, c.toNat ≤ 0x7f) : isValidName (utf8 t) = true ↔ t ≠ [] ∧ t.length ≤ 32 ∧
      t.head? ≠ some '-' ∧ t.getLast? ≠ some '-' ∧ ∀ c ∈ t, nameChar c = true := by
    have hchars : ((t.map fun c => UInt8.ofNat c.toNat).all isNameByte = true) ↔
        ∀ c ∈ t, nameChar c = true := by
      rw [List.all_map, List.all_eq_true]
      refine forall₂_congr fun c hc => ?_
      rw [Function.comp_apply, nameByte_low (hascii c hc), nameChar]
    have hend {o : Option Char} (ho : ∀ c ∈ o, c ∈ t) :
        o.map (fun c => UInt8.ofNat c.toNat) = some 0x2d ↔ o = some '-' := by
      cases o with
      | none => simp
      | some c =>
        rw [Option.map_some, Option.some.injEq, Option.some.injEq, hyphen_byte (hascii c (ho c rfl))]
    have hhead := hend fun c hc => List.mem_of_mem_head? hc
    have hlast := hend fun c hc => List.mem_of_mem_getLast? hc
    simp only [UrlHosts.utf8_ascii hascii, isValidName, List.length_map, List.head?_map,
      List.getLast?_map, hhead, hlast, List.map_eq_nil_iff]
    split_ifs with hlen hhyphen
    · simp only [false_iff]
      rintro ⟨hne, hshort, -⟩
      rcases hlen with hnil | hlong
      · exact hne hnil
      · omega
    · simp only [false_iff]
      rintro ⟨-, -, hhead, hlast, -⟩
      exact hhyphen.elim hhead hlast
    · rw [hchars]
      obtain ⟨hne, hshort⟩ := not_or.mp hlen
      obtain ⟨hhead, hlast⟩ := not_or.mp hhyphen
      exact ⟨fun h => ⟨hne, by omega, hhead, hlast, h⟩, fun h => h.2.2.2.2⟩
  constructor
  · intro h
    refine (hbytes (UrlHosts.ascii_of_utf8 fun b hb => isNameByte_le ?_)).mp h
    unfold isValidName at h
    split_ifs at h
    exact List.all_eq_true.mp h b hb
  · intro h
    refine (hbytes fun c hc => ?_).mpr h
    have hname := h.2.2.2.2 c hc
    by_contra hhigh
    revert hname
    simp only [nameChar, lowerOrDigit, Bool.or_eq_true, Bool.and_eq_true, decide_eq_true_eq]
    rintro ((⟨-, hle⟩ | ⟨-, hle⟩) | rfl)
    · have hle : c.toNat ≤ 122 := hle
      omega
    · have hle : c.toNat ≤ 57 := hle
      omega
    · exact hhigh (by decide)

theorem namePattern_iff : namePattern t = isValidName (utf8 t) := by
  rw [Bool.eq_iff_iff, isValidName_utf8]
  cases t with
  | nil => simp [namePattern]
  | cons c rest =>
    rcases List.eq_nil_or_concat rest with rfl | ⟨mid, d, rfl⟩
    · simp [namePattern, lowerOrDigit_iff, and_comm]
    · have hpattern : namePattern (c :: (mid ++ [d])) = true ↔ lowerOrDigit c = true ∧ mid.length ≤ 30 ∧
          (∀ x ∈ mid, nameChar x = true) ∧ lowerOrDigit d = true := by
        have hlength : (mid ++ [d]).length ≤ 31 ↔ mid.length ≤ 30 := by
          rw [List.length_append, List.length_singleton]
          omega
        rw [← hlength]
        simp [namePattern, nameChar, and_assoc]
      have hlast : (c :: (mid ++ [d])).getLast? = some d := by
        rw [← List.cons_append, List.getLast?_concat]
      have hall : (∀ x ∈ c :: (mid ++ [d]), nameChar x = true) ↔
          nameChar c = true ∧ (∀ x ∈ mid, nameChar x = true) ∧ nameChar d = true := by
        rw [List.forall_mem_cons, List.forall_mem_append, List.forall_mem_singleton]
      have hlen : (c :: (mid ++ [d])).length ≤ 32 ↔ mid.length ≤ 30 := by
        simp only [List.length_cons, List.length_append, List.length_nil]
        omega
      rw [List.concat_eq_append, hpattern, lowerOrDigit_iff, lowerOrDigit_iff, hlast, hall, hlen]
      simp only [List.head?_cons, ne_eq, Option.some.injEq, List.cons_ne_nil, not_false_eq_true, true_and]
      tauto

end

/-- The links a field allows. -/
def hosts : ProfileField → List Bytes
  | .avatar => avatarHosts
  | .banner => bannerHosts
  | .bio => bioHosts
  | .linktree => [linktreePrefix]
  | .primaryName => []

/-- What `parse_profile` keeps in a field. -/
def keeps : ProfileField → Bytes → Bool
  | .primaryName, s => isValidName s
  | f, s => allowed s (hosts f)

theorem hosts_links {f : ProfileField} (h : f ∈ ProfileField.links) : hosts f ⊆ avatarHosts := by
  revert h
  cases f <;> decide

theorem keeps_link {f : ProfileField} (h : f ∈ ProfileField.links) {u : Chars} :
    keeps f (utf8 u) = true ↔ ∃ x, linkPrefix u = some x ∧ x.length < u.length ∧ utf8 x ∈ hosts f := by
  rw [← allowed_iff (hosts_links h)]
  cases f with
  | primaryName => exact absurd h (by decide)
  | avatar | banner | bio | linktree => rfl

/-! ## A profile that is accepted -/

def rawField (raw : RawProfile) : ProfileField → Option Bytes
  | .avatar => raw.avatar
  | .banner => raw.banner
  | .bio => raw.bio
  | .linktree => raw.linktree
  | .primaryName => raw.primaryName

theorem readRaw_inv {j : Json} {raw : RawProfile} (h : readRaw j = some raw) : j.fits 6 = true ∧
    (∃ v, j.field "v".toList 0 (Json.readUint 32) = some v ∧ raw.v = v.map UInt32.ofNat) ∧
    ∀ f, readField j f = some (rawField raw f) := by
  unfold readRaw at h
  simp only [Option.bind_eq_bind] at h
  split at h
  · cases h
  · rename_i hfits
    simp only [Option.bind_eq_some_iff, Option.some.injEq] at h
    obtain ⟨v, hv, avatar, havatar, banner, hbanner, bio, hbio, linktree, hlinktree, name, hname, rfl⟩ := h
    refine ⟨by simpa using hfits, ⟨v, hv, rfl⟩, ?_⟩
    rintro (_ | _ | _ | _ | _)
    exacts [havatar, hbanner, hbio, hlinktree, hname]


theorem profile_v {v : Option ℕ} {j : Json} (h : j.field "v".toList 0 (Json.readUint 32) = some v)
    (hone : v.map UInt32.ofNat = some 1) : j.slot "v".toList 0 = some (some (.number ['1'])) := by
  obtain ⟨n, rfl, hn⟩ := Option.map_eq_some_iff.mp hone
  obtain ⟨slot, hslot, hread⟩ := Option.bind_eq_some_iff.mp h
  cases slot with
  | none => cases hread
  | some value =>
    cases value with
    | number digits =>
      simp only [Option.elim_some, Json.readOptional, Option.map_eq_some_iff, Option.some.injEq, exists_eq_right,
        Json.readUint] at hread
      split_ifs at hread with hdigits
      have hval := Option.some.inj hread
      have hone : n = 1 := by
        have hnat := congrArg UInt32.toNat hn
        have hsize : n < 2 ^ 32 := hval ▸ hdigits.2
        simp only [UInt32.toNat_ofNat'] at hnat
        have : (1 : UInt32).toNat = 1 := rfl
        omega
      have hspelled : digits = ['1'] := by
        rw [hdigits.1, hval, hone]
        decide
      rw [hslot, hspelled]
    | null | bool _ | string _ | array _ | object _ => cases hread

section
variable {env : Env} {read : Bytes → Option Json} {row : StatsRow} {p : Profile}

/-- The tree of an accepted profile, the texts of its fields, and what is kept of them. -/
theorem accepted_inv {profile : Bytes} (h : accepted env read profile = some p) :
    profile.length ≤ maxProfileBytes ∧ ∃ j, read profile = some j ∧ j.fits 6 = true ∧
      j.slot "v".toList 0 = some (some (.number ['1'])) ∧ ∃ text : ProfileField → Option Chars,
        (∀ f, j.field f.key f.place Json.readText = some (text f)) ∧
        ∀ f, served p f = ((text f).map utf8).filter (keeps f) := by
  unfold accepted parseProfile at h
  split_ifs at h with hlen
  obtain ⟨raw, hraw, h⟩ := Option.bind_eq_some_iff.mp h
  split_ifs at h with hv
  obtain ⟨j, hj, hraw⟩ := Option.bind_eq_some_iff.mp hraw
  obtain ⟨hfits, ⟨v, hslot, hrawv⟩, hfields⟩ := readRaw_inv hraw
  have htext (f : ProfileField) : ∃ t, j.field f.key f.place Json.readText = some t ∧
      t.map utf8 = rawField raw f := Option.map_eq_some_iff.mp (hfields f)
  choose text htext hutf8 using htext
  refine ⟨by omega, j, hj, hfits, profile_v hslot ?_, text, htext, fun f => ?_⟩
  · rw [← hrawv]
    exact not_not.mp hv
  · rw [hutf8, ← Option.some.inj h]
    cases f <;> rfl

/-! ## Its row in the database -/

/-- Whether a field is written with what looks like the escape of NUL. -/
def nulWritten (j : Json) (f : ProfileField) : Bool := (j.lastMember f.key).any fun v => nulEscape <:+: v.text

variable {members : List (Written × Json)}

theorem fieldText_eq (hlegible : (Json.object members).legible = true) {f : ProfileField} {t : Option Chars}
    (h : (Json.object members).field f.key f.place Json.readText = some t) :
    stringOrNull (.object members) f = .ok true ∧
      fieldText (.object members) f = .ok (if nulWritten (.object members) f then none else t) := by
  obtain ⟨slot, hslot, hread⟩ := Option.bind_eq_some_iff.mp h
  have hlast := Json.lastMember_slot hslot
  have harrow : (Json.object members).arrow f.key = .ok ((Json.object members).lastMember f.key) :=
    Json.arrow_legible hlegible
  rw [hlast] at harrow
  rw [stringOrNull, fieldText, nulWritten, Json.arrowText, harrow, hlast]
  cases slot with
  | none =>
    cases hread
    exact ⟨rfl, rfl⟩
  | some value =>
    cases value with
    | null =>
      cases hread
      exact ⟨rfl, by decide⟩
    | string s =>
      obtain ⟨u, hu, rfl⟩ := Option.map_eq_some_iff.mp hread
      refine ⟨rfl, ?_⟩
      by_cases hnul : nulEscape <:+: (Json.string s).text
      · simp [hnul, bind, Except.bind, pure, Except.pure]
      · simp [hnul, bind, Except.bind, Except.map]
        exact hu
    | bool _ | number _ | array _ | object _ => cases hread

/-- What is kept of a field of a row. -/
def keptOf (r : CteRow) (f : ProfileField) : Option Bytes := ((r.get f).map utf8).filter (keeps f)

theorem cteRow_object (h : accepted env read row.profile = some p) (hread : read row.profile = some (.object members))
    (hlegible : (Json.object members).legible = true) :
    ∃ r, cteRow read row = .ok (some r) ∧ r.createdAt = row.createdAt.getD 0 ∧
      ∀ f, keptOf r f = if nulWritten (.object members) f then none else served p f := by
  obtain ⟨hlen, j, hj, -, hv, text, htext, hserved⟩ := accepted_inv h
  obtain rfl : j = .object members := Option.some.inj (hj.symm.trans hread)
  have hone : isV1 (.object members) = .ok true := by
    rw [isV1, Json.arrow_legible hlegible, Json.lastMember_slot hv]
    rfl
  have hselected : selected (.object members) = .ok true := by
    have hall : (Json.object members).kind = .object := rfl
    rw [selected, if_pos hall, hone]
    simp only [List.allM, (fieldText_eq hlegible (htext _)).1, bind, Except.bind, pure, Except.pure, if_true]
  let mask (f : ProfileField) : Option Chars := if nulWritten (.object members) f then none else text f
  refine ⟨⟨row.createdAt.getD 0, mask .avatar, mask .banner, mask .bio, mask .linktree, mask .primaryName⟩,
    ?_, rfl, fun f => ?_⟩
  · rw [cteRow, if_neg (by omega), hread]
    simp only [hselected, (fieldText_eq hlegible (htext _)).2, bind, Except.bind, pure, Except.pure, if_true, mask]
  · have hget : CteRow.get ⟨row.createdAt.getD 0, mask .avatar, mask .banner, mask .bio, mask .linktree,
        mask .primaryName⟩ f = mask f := by
      cases f <;> rfl
    rw [keptOf, hget, hserved]
    by_cases hnul : nulWritten (.object members) f = true
    · simp only [mask, hnul, if_true, Option.map_none, Option.filter_none]
    · simp only [mask, hnul]
      rfl

theorem cteRow_illegible (h : accepted env read row.profile = some p)
    (hread : read row.profile = some (.object members)) (hlegible : (Json.object members).legible = false) :
    cteRow read row = .error .badEscape := by
  obtain ⟨hlen, -⟩ := accepted_inv h
  rw [cteRow, if_neg (by omega), hread]
  have hselected : selected (.object members) = .error .badEscape := by
    have hall : (Json.object members).kind = .object := rfl
    rw [selected, if_pos hall, isV1, Json.arrow_illegible hlegible]
    rfl
  simp only [hselected, bind, Except.bind]

/-- An accepted profile that is no object is an array, which the database leaves out. -/
theorem cteRow_array (h : accepted env read row.profile = some p)
    (hread : ∀ members, read row.profile ≠ some (.object members)) : cteRow read row = .ok none := by
  obtain ⟨hlen, j, hj, -⟩ := accepted_inv h
  have hkind : j.kind ≠ .object := by
    cases j with
    | object members => exact absurd hj (hread members)
    | null | bool _ | number _ | string _ | array _ => nofun
  rw [cteRow, if_neg (by omega), hj]
  simp only [selected, if_neg hkind, bind, Except.bind, pure, Except.pure]
  rfl

end

section
variable (env : Env) (read : Bytes → Option Json) (row : StatsRow)

/-- What is served of a field of a row. -/
def servedOf (f : ProfileField) : Option Bytes := (accepted env read row.profile).bind (served · f)

/-- An object whose strings the database can read, no kept field of which is written with what looks
like the escape of NUL. -/
def Plain : Prop := ∃ members, read row.profile = some (.object members) ∧
  (Json.object members).legible = true ∧
  ∀ f, nulWritten (.object members) f = true → servedOf env read row f = none

/-- The row that the database makes of a row. -/
structure Counted (r : CteRow) : Prop where
  answered : cteRow read row = .ok (some r)
  createdAt : r.createdAt = row.createdAt.getD 0
  kept : ∀ f, (keptOf r f).isSome → keptOf r f = servedOf env read row f

variable {env read row}

theorem Plain.counted (hp : (accepted env read row.profile).isSome) (h : Plain env read row) :
    ∃ r, Counted env read row r ∧ ∀ f, keptOf r f = servedOf env read row f := by
  obtain ⟨members, hread, hlegible, hnul⟩ := h
  obtain ⟨p, hp⟩ := Option.isSome_iff_exists.mp hp
  obtain ⟨r, hr, hcreated, hkept⟩ := cteRow_object hp hread hlegible
  have hserved (f : ProfileField) : servedOf env read row f = served p f := by
    rw [servedOf, hp, Option.bind_some]
  have hall (f : ProfileField) : keptOf r f = servedOf env read row f := by
    rw [hkept]
    split_ifs with hwritten
    · exact (hnul f hwritten).symm
    · exact (hserved f).symm
  exact ⟨r, ⟨hr, hcreated, fun f _ => hall f⟩, hall⟩

/-- A row that the database counts as it is served is plain. -/
theorem plain_of_counted (hp : (accepted env read row.profile).isSome) {r : CteRow}
    (hr : cteRow read row = .ok (some r)) :
    Counted env read row r ∧
      ((∀ f, (servedOf env read row f).isSome → (keptOf r f).isSome) → Plain env read row) := by
  obtain ⟨p, hp⟩ := Option.isSome_iff_exists.mp hp
  have hserved (f : ProfileField) : servedOf env read row f = served p f := by
    rw [servedOf, hp, Option.bind_some]
  by_cases hobject : ∃ members, read row.profile = some (.object members)
  · obtain ⟨members, hread⟩ := hobject
    cases hlegible : (Json.object members).legible with
    | false =>
      rw [cteRow_illegible hp hread hlegible] at hr
      cases hr
    | true =>
      obtain ⟨r', hr', hcreated, hkept⟩ := cteRow_object hp hread hlegible
      obtain rfl : r = r' := Option.some.inj (Except.ok.inj (hr.symm.trans hr'))
      refine ⟨⟨hr, hcreated, fun f hsome => ?_⟩, fun hall => ⟨members, hread, hlegible, fun f hnul => ?_⟩⟩
      · rw [hkept] at hsome ⊢
        split_ifs at hsome ⊢
        · cases hsome
        · exact (hserved f).symm
      · have hnone : keptOf r f = none := by rw [hkept, if_pos hnul]
        have hnot := mt (hall f)
        rw [hnone] at hnot
        exact Option.not_isSome_iff_eq_none.mp (hnot nofun)
  · rw [cteRow_array hp fun members hread => hobject ⟨members, hread⟩] at hr
    cases hr

end

/-! ## Links counted by their groups -/

/-- A link of this prefix counts in a field, and its platform is one that `φ` takes. -/
def counts (f : ProfileField) (φ : Option Platform → Bool) (x : ProfileField × Chars) : Bool :=
  x.1 = f && utf8 x.2 ∈ hosts f && φ (platformOf (utf8 x.2))

def linkOf (r : CteRow) (f : ProfileField) : Option (ProfileField × Chars) :=
  (r.get f).bind fun url => (linkPrefix url).bind fun x => if x.length < url.length then some (f, x) else none

theorem linkOf_inv {r : CteRow} {f : ProfileField} {x : ProfileField × Chars} (h : linkOf r f = some x) :
    x.1 = f ∧ linkPrefix x.2 = some x.2 := by
  obtain ⟨url, -, h⟩ := Option.bind_eq_some_iff.mp h
  obtain ⟨x', hx, h⟩ := Option.bind_eq_some_iff.mp h
  split_ifs at h
  cases h
  exact ⟨rfl, linkPrefix_mono hx (List.prefix_refl x')⟩

theorem mem_linkPairs {rows : List CteRow} {x : ProfileField × Chars} (h : x ∈ linkPairs rows) :
    x.1 ∈ ProfileField.links ∧ linkPrefix x.2 = some x.2 := by
  obtain ⟨r, -, h⟩ := List.mem_flatMap.mp h
  obtain ⟨f, hf, hx⟩ := List.mem_filterMap.mp h
  obtain ⟨rfl, hself⟩ := linkOf_inv hx
  exact ⟨hf, hself⟩

/-- The link of a field counts when the field is kept. -/
theorem counts_linkOf {r : CteRow} {f : ProfileField} (hf : f ∈ ProfileField.links)
    (φ : Option Platform → Bool) :
    (linkOf r f).any (counts f φ) = (keptOf r f).any fun s => φ (platformOf s) := by
  unfold linkOf keptOf
  cases hurl : r.get f with
  | none => rfl
  | some url =>
    rw [Bool.eq_iff_iff]
    have hkept : ((Option.map utf8 (some url)).filter (keeps f)).any (fun s => φ (platformOf s)) = true ↔
        keeps f (utf8 url) = true ∧ φ (platformOf (utf8 url)) = true := by
      by_cases hk : keeps f (utf8 url) = true
      · simp [hk]
      · simp [hk]
    rw [hkept, keeps_link hf, Option.bind_some]
    cases hx : linkPrefix url with
    | none => simp
    | some x =>
      rw [platformOf_link hx]
      by_cases hlen : x.length < url.length
      · simp [hlen, counts]
      · simp [hlen]

theorem countP_links {r : CteRow} {f : ProfileField} {q : ProfileField × Chars → Bool}
    (hq : ∀ x, q x = true → x.1 = f) {l : List ProfileField} (hl : l.Nodup) :
    (l.filterMap (linkOf r)).countP q = if f ∈ l ∧ (linkOf r f).any q then 1 else 0 := by
  induction l with
  | nil => rfl
  | cons g l ih =>
    obtain ⟨hg, hl⟩ := List.nodup_cons.mp hl
    have hstep : ((g :: l).filterMap (linkOf r)).countP q =
        (l.filterMap (linkOf r)).countP q + if (linkOf r g).any q then 1 else 0 := by
      rw [List.filterMap_cons]
      cases linkOf r g with
      | none => rfl
      | some x => rw [List.countP_cons, Option.any_some]
    have hother (h : (linkOf r g).any q = true) : g = f := by
      obtain ⟨x, hx, hqx⟩ := (Option.any_eq_true q _).mp h
      exact (linkOf_inv hx).1.symm.trans (hq x hqx)
    rw [hstep, ih hl]
    by_cases hgf : g = f
    · subst hgf
      simp [hg]
    · have hnone : (linkOf r g).any q = false := Bool.eq_false_iff.mpr fun h => hgf (hother h)
      simp [hnone, Ne.symm hgf]

/-- The links that count are the rows whose field is kept. -/
theorem countP_linkPairs {f : ProfileField} (hf : f ∈ ProfileField.links) (φ : Option Platform → Bool)
    (rows : List CteRow) :
    (linkPairs rows).countP (counts f φ) = rows.countP fun r => (keptOf r f).any fun s => φ (platformOf s) := by
  have hq : ∀ x, counts f φ x = true → x.1 = f := by
    intro x hx
    simp only [counts, Bool.and_eq_true, decide_eq_true_eq] at hx
    exact hx.1.1
  induction rows with
  | nil => rfl
  | cons r rows ih =>
    have hcons : linkPairs (r :: rows) = ProfileField.links.filterMap (linkOf r) ++ linkPairs rows := rfl
    rw [hcons, List.countP_append, ih, countP_links hq (by decide), List.countP_cons, counts_linkOf hf]
    simp only [hf, true_and]
    omega

section
variable {env : Env} {read : Bytes → Option Json}

theorem slot_linkJson (f : ProfileField) (url name : Chars) (i : ℕ) : (linkJson f url).slot name i =
    some (if name = f.key then some (.string (escape url))
      else if name = "v".toList then some (.number ['1']) else none) := by
  have hnamed : Json.named [(escape f.key, .string (escape url)), (escape "v".toList, .number ['1'])] =
      some [(f.key, .string (escape url)), ("v".toList, .number ['1'])] := by
    simp only [Json.named, List.mapM_cons, List.mapM_nil, decode_escape]
    rfl
  have hkey : f.key ≠ "v".toList := by cases f <;> decide
  rw [linkJson, Json.slot, hnamed, Option.bind_some]
  simp only [List.filter_cons, List.filter_nil]
  by_cases hname : name = f.key
  · simp only [hname, hkey.symm, decide_true, decide_false, if_true]
    rfl
  · by_cases hv : name = "v".toList
    · simp only [hv, hkey, hkey.symm, decide_true, decide_false, if_true, if_false]
      rfl
    · simp only [hname, hv, Ne.symm hname, Ne.symm hv, decide_false, if_false]
      rfl

/-- A link written alone is read back alone. -/
theorem readRaw_linkJson (f : ProfileField) (url : Chars) : ∃ raw, readRaw (linkJson f url) = some raw ∧
    raw.v = some 1 ∧ rawField raw f = some (utf8 url) := by
  have hfield (g : ProfileField) : readField (linkJson f url) g =
      some (if g = f then some (utf8 url) else none) := by
    have hkeys : g.key = f.key ↔ g = f := by cases g <;> cases f <;> decide
    have hv : g.key ≠ "v".toList := by cases g <;> decide
    rw [readField, Json.field, slot_linkJson]
    simp only [hkeys, hv, if_false]
    by_cases hg : g = f
    · simp [hg, Json.readOptional, Json.readText, decode_escape]
    · simp [hg]
  have hv : (linkJson f url).field "v".toList 0 (Json.readUint 32) = some (some 1) := by
    have hkey : "v".toList ≠ f.key := by cases f <;> decide
    rw [Json.field, slot_linkJson, if_neg hkey, if_pos rfl]
    decide
  have hfits : (linkJson f url).fits 6 = true := rfl
  let only (g : ProfileField) : Option Bytes := if g = f then some (utf8 url) else none
  refine ⟨⟨some 1, only .avatar, only .banner, only .bio, only .linktree, only .primaryName⟩, ?_, rfl, ?_⟩
  · simp only [readRaw, hfits, hv, hfield]
    rfl
  · cases f <;> rfl

variable (read) in
/-- The text that is written for a prefix is read back as what it was written from. -/
def ReadBack (x : ProfileField × Chars) : Prop :=
  read (utf8 (linkJson x.1 (x.2 ++ ['x'])).text) = some (linkJson x.1 (x.2 ++ ['x']))

theorem accepted_link {f : ProfileField} {url : Chars}
    (hread : read (utf8 (linkJson f url).text) = some (linkJson f url)) :
    (accepted env read (utf8 (linkJson f url).text)).bind (served · f) =
      if (utf8 (linkJson f url).text).length ≤ maxProfileBytes then (some (utf8 url)).filter (keeps f)
      else none := by
  obtain ⟨raw, hraw, hv, hfield⟩ := readRaw_linkJson f url
  have hparse : (serde env read).rawProfile (utf8 (linkJson f url).text) = some raw := by
    have hbind : (serde env read).rawProfile (utf8 (linkJson f url).text) =
        (read (utf8 (linkJson f url).text)).bind readRaw := rfl
    rw [hbind, hread, Option.bind_some, hraw]
  unfold accepted parseProfile
  by_cases hlen : (utf8 (linkJson f url).text).length ≤ maxProfileBytes
  · rw [if_neg (by omega), if_pos hlen, hparse, Option.bind_some, if_neg (not_not.mpr hv), Option.bind_some,
      ← hfield]
    cases f <;> rfl
  · rw [if_pos (by omega), if_neg hlen]
    rfl

/-- The links of a host are few enough bytes. -/
theorem host_length {f : ProfileField} (hf : f ∈ ProfileField.links) {x : Chars} (hx : linkPrefix x = some x)
    (hhost : utf8 x ∈ hosts f) : (utf8 (linkJson f (x ++ ['x'])).text).length ≤ maxProfileBytes := by
  have hmem := hosts_links hf hhost
  obtain ⟨htext, hhosts⟩ := utf8_hostText hmem
  have hself : linkPrefix x = some (hostText (utf8 x)) := by
    rw [← prefix_host hhosts, htext]
    exact List.isPrefixOf_iff_prefix.mpr (List.prefix_refl _)
  have hchars : x = hostText (utf8 x) := Option.some.inj (hx.symm.trans hself)
  have hall : (ProfileField.links.all fun f => avatarHosts.all fun h =>
      (utf8 (linkJson f (hostText h ++ ['x'])).text).length ≤ maxProfileBytes) = true := by decide +kernel
  have hlen := List.all_eq_true.mp (List.all_eq_true.mp hall f hf) _ hmem
  rw [← hchars, decide_eq_true_eq] at hlen
  exact hlen

/-- A prefix is tried with one letter behind it; what counts is whether it is a host of the field. -/
theorem accepted_try {f : ProfileField} (hf : f ∈ ProfileField.links) {x : Chars}
    (hread : ReadBack read (f, x)) (hx : linkPrefix x = some x) :
    ((accepted env read (utf8 (linkJson f (x ++ ['x'])).text)).bind (served · f)).isSome = true ↔
      utf8 x ∈ hosts f := by
  have htry : linkPrefix (x ++ ['x']) = some x := linkPrefix_mono hx (List.prefix_append x _)
  rw [accepted_link hread]
  constructor
  · intro h
    split_ifs at h with hlen
    · obtain ⟨s, hs⟩ := Option.isSome_iff_exists.mp h
      obtain ⟨hself, hkeeps⟩ := Option.filter_eq_some_iff.mp hs
      obtain rfl : utf8 (x ++ ['x']) = s := Option.some.inj hself
      obtain ⟨x', hx', -, hhost⟩ := (keeps_link hf).mp hkeeps
      obtain rfl : x = x' := Option.some.inj (htry.symm.trans hx')
      exact hhost
    · cases h
  · intro hhost
    have hkeeps : keeps f (utf8 (x ++ ['x'])) = true :=
      (keeps_link hf).mpr ⟨x, htry, by simp, hhost⟩
    rw [if_pos (host_length hf hx hhost), Option.filter_some, if_pos hkeeps]
    rfl

theorem addLinks_eq {f : ProfileField} (hf : f ∈ ProfileField.links) {x : Chars}
    (hread : ReadBack read (f, x)) (hx : linkPrefix x = some x) (c : ProfileCounts) (n : ℕ) :
    addLinks env read c ((f, x), n) =
      { c with
        kept := fun g => c.kept g + if counts g (fun _ => true) (f, x) then n else 0
        platforms := fun g platform =>
          c.platforms g platform + if counts g (fun p => p = some platform) (f, x) then n else 0 } := by
  have hhosts : ((accepted env read (utf8 (linkJson f (x ++ ['x'])).text)).bind (served · f)).isSome = true ↔
      utf8 x ∈ hosts f := accepted_try hf hread hx
  unfold addLinks
  by_cases hhost : utf8 x ∈ hosts f
  · have hsome := hhosts.mpr hhost
    cases hp : accepted env read (utf8 (linkJson f (x ++ ['x'])).text) with
    | none =>
      rw [hp] at hsome
      cases hsome
    | some p =>
      rw [hp, Option.bind_some] at hsome
      simp only [hf, hsome, and_self, if_true]
      congr 1
      · funext g
        by_cases hg : g = f
        · subst hg
          simp [counts, hhost]
        · simp [counts, hg, Ne.symm hg]
      · funext g platform
        by_cases hg : g = f
        · subst hg
          by_cases hplatform : platformOf (utf8 x) = some platform <;> simp [counts, hhost, hplatform]
        · simp [counts, hg, Ne.symm hg]
  · have hcounts (g : ProfileField) (φ : Option Platform → Bool) : counts g φ (f, x) = false := by
      by_cases hg : f = g
      · subst hg
        simp [counts, hhost]
      · simp [counts, hg]
    simp only [hcounts, Bool.false_eq_true, if_false, Nat.add_zero]
    cases hp : accepted env read (utf8 (linkJson f (x ++ ['x'])).text) with
    | none => rfl
    | some p =>
      have hnone : ¬(f ∈ ProfileField.links ∧ (served p f).isSome = true) := by
        rintro ⟨-, hsome⟩
        rw [hp, Option.bind_some] at hhosts
        exact hhost (hhosts.mp hsome)
      exact if_neg hnone

/-- The links of the groups that count. -/
def linkSum (q : ProfileField × Chars → Bool) (l : List ((ProfileField × Chars) × ℕ)) : ℕ :=
  (l.map fun g => if q g.1 then g.2 else 0).sum

theorem foldl_addLinks {l : List ((ProfileField × Chars) × ℕ)}
    (hl : ∀ g ∈ l, g.1.1 ∈ ProfileField.links ∧ ReadBack read g.1 ∧ linkPrefix g.1.2 = some g.1.2) (c : ProfileCounts) :
    l.foldl (addLinks env read) c =
      { c with
        kept := fun f => c.kept f + linkSum (counts f fun _ => true) l
        platforms := fun f platform =>
          c.platforms f platform + linkSum (counts f fun p => p = some platform) l } := by
  induction l generalizing c with
  | nil => rfl
  | cons g l ih =>
    obtain ⟨⟨f, x⟩, n⟩ := g
    obtain ⟨hf, hread, hx⟩ := hl _ List.mem_cons_self
    rw [List.foldl_cons, ih fun g hg => hl g (List.mem_cons_of_mem _ hg), addLinks_eq hf hread hx]
    simp only [linkSum, List.map_cons, List.sum_cons, Nat.add_assoc]

theorem linkSum_groups (q : ProfileField × Chars → Bool) (rows : List CteRow)
    {l : List ((ProfileField × Chars) × ℕ)} (hl : l.Perm (groups rows)) :
    linkSum q l = (linkPairs rows).countP q := by
  have hfilter (l : List (ProfileField × Chars)) (n : ProfileField × Chars → ℕ) :
      (l.map fun x => if q x then n x else 0).sum = ((l.filter q).map n).sum := by
    induction l with
    | nil => rfl
    | cons x l ih =>
      rw [List.map_cons, List.sum_cons, ih, List.filter_cons]
      by_cases hq : q x = true
      · rw [if_pos hq, if_pos hq, List.map_cons, List.sum_cons]
      · rw [if_neg hq, if_neg hq, Nat.zero_add]
  rw [linkSum, (hl.map _).sum_eq, groups, List.map_map, ← List.sum_map_count_dedup_filter_eq_countP, ← hfilter]
  rfl

theorem countP_linkPairs_none {f : ProfileField} (hf : f ∉ ProfileField.links) (φ : Option Platform → Bool)
    (rows : List CteRow) : (linkPairs rows).countP (counts f φ) = 0 := by
  rw [List.countP_eq_zero]
  intro x hx hcounts
  simp only [counts, Bool.and_eq_true, decide_eq_true_eq] at hcounts
  exact hf (hcounts.1.1 ▸ (mem_linkPairs hx).1)

theorem keptOf_isSome {r : CteRow} {f : ProfileField} :
    (keptOf r f).isSome = (r.get f).any fun t => keeps f (utf8 t) := by
  rw [keptOf]
  cases r.get f with
  | none => rfl
  | some t =>
    rw [Option.map_some, Option.any_some, Option.filter_some]
    split_ifs with hkeeps
    · exact hkeeps.symm
    · exact (Bool.eq_false_iff.mpr hkeeps).symm

/-- The counts over the rows that the database makes. -/
def tally (now : ℤ) (p : List CteRow) : ProfileCounts :=
  let since (t : ℤ) := p.countP fun r => t ≤ r.createdAt
  { total := p.length
    new24h := since (now - day)
    new7d := since (now - 7 * day)
    new30d := since (now - 30 * day)
    kept := fun f => p.countP fun r => (keptOf r f).isSome
    platforms := fun f platform =>
      if f ∈ ProfileField.links then p.countP fun r => (keptOf r f).bind platformOf = some platform else 0 }

theorem computeStats_ok
    {order : List ((ProfileField × Chars) × ℕ) → List ((ProfileField × Chars) × ℕ)}
    (horder : ∀ l, (order l).Perm l) {now : ℤ} {rows : List StatsRow} {p : List CteRow}
    (hp : profilesCte read rows = .ok p) (hread : ∀ x ∈ linkPairs p, ReadBack read x) :
    computeStats env read order now rows = .ok (tally now p) := by
  have hgroups : ∀ g ∈ order (groups p),
      g.1.1 ∈ ProfileField.links ∧ ReadBack read g.1 ∧ linkPrefix g.1.2 = some g.1.2 := by
    intro g hg
    obtain ⟨x, hx, rfl⟩ := List.mem_map.mp ((horder _).mem_iff.mp hg)
    have hx := List.mem_dedup.mp hx
    exact ⟨(mem_linkPairs hx).1, hread x hx, (mem_linkPairs hx).2⟩
  have hsum (q : ProfileField × Chars → Bool) : linkSum q (order (groups p)) = (linkPairs p).countP q :=
    linkSum_groups q p (horder _)
  simp only [computeStats, hp, bind, Except.bind, pure, Except.pure, foldl_addLinks hgroups, hsum]
  refine congrArg Except.ok (ProfileCounts.ext rfl rfl rfl rfl (funext fun f => ?_) (funext₂ fun f platform => ?_))
  · dsimp only [tally]
    by_cases hf : f ∈ ProfileField.links
    · have hkept : (fun r => (keptOf r f).any fun _ => true) = fun r => (keptOf r f).isSome := by
        funext r
        cases keptOf r f <;> rfl
      rw [countP_linkPairs hf, hkept]
      cases f with
      | avatar | banner | bio => exact Nat.zero_add _
      | linktree | primaryName => exact absurd hf (by decide)
    · rw [countP_linkPairs_none hf, Nat.add_zero]
      simp only [keptOf_isSome]
      cases f with
      | avatar | banner | bio => exact absurd (by decide) hf
      | linktree =>
        have hrule : likeLinktree = fun t => keeps .linktree (utf8 t) := funext fun _ => likeLinktree_iff
        rw [hrule]
        rfl
      | primaryName =>
        have hrule : namePattern = fun t => keeps .primaryName (utf8 t) := funext fun _ => namePattern_iff
        rw [hrule]
        rfl
  · dsimp only [tally]
    by_cases hf : f ∈ ProfileField.links
    · rw [countP_linkPairs hf, if_pos hf, Nat.zero_add]
      refine List.countP_congr fun r _ => ?_
      cases keptOf r f <;> simp
    · rw [countP_linkPairs_none hf, if_neg hf]

end

/-! ## What the statistics count -/

section
variable {env : Env} {read : Bytes → Option Json} {rows : List StatsRow} {p : List CteRow}

theorem profilesCte_eq (h : List.Forall₂ (fun row r => cteRow read row = .ok (some r)) rows p) :
    profilesCte read rows = .ok p := by
  have hmap : rows.mapM (cteRow read) = .ok (p.map some) := by
    induction h with
    | nil => rfl
    | cons hr _ ih =>
      rw [List.mapM_cons, hr, ih]
      rfl
  have hreduce (p : List CteRow) : (p.map some).reduceOption = p := by
    induction p with
    | nil => rfl
    | cons r p ih => rw [List.map_cons, List.reduceOption_cons_of_some, ih]
  rw [profilesCte, hmap]
  exact congrArg Except.ok (hreduce p)

theorem mapM_forall₂ {os : List (Option CteRow)} (h : rows.mapM (cteRow read) = .ok os) :
    List.Forall₂ (fun row o => cteRow read row = .ok o) rows os := by
  induction rows generalizing os with
  | nil =>
    cases h
    exact .nil
  | cons row rows ih =>
    rw [List.mapM_cons] at h
    cases hrow : cteRow read row with
    | error e =>
      rw [hrow] at h
      cases h
    | ok o =>
      cases hrest : rows.mapM (cteRow read) with
      | error e =>
        rw [hrow, hrest] at h
        cases h
      | ok os' =>
        rw [hrow, hrest] at h
        cases h
        exact .cons hrow (ih hrest)

/-- As many rows come out as went in when every row comes out. -/
theorem profilesCte_inv (h : profilesCte read rows = .ok p) (hlen : p.length = rows.length) :
    List.Forall₂ (fun row r => cteRow read row = .ok (some r)) rows p := by
  cases hmap : rows.mapM (cteRow read) with
  | error e =>
    rw [profilesCte, hmap] at h
    cases h
  | ok os =>
    rw [profilesCte, hmap] at h
    obtain rfl : os.reduceOption = p := Except.ok.inj h
    have hos := mapM_forall₂ hmap
    have hall : ∀ o ∈ os, o.isSome := List.reduceOption_length_eq_iff.mp (hlen.trans hos.length_eq)
    have hself (os : List (Option CteRow)) (hall : ∀ o ∈ os, o.isSome) : os = os.reduceOption.map some := by
      induction os with
      | nil => rfl
      | cons o os ih =>
        obtain ⟨r, rfl⟩ := Option.isSome_iff_exists.mp (hall o List.mem_cons_self)
        rw [List.reduceOption_cons_of_some, List.map_cons, ← ih fun o ho => hall o (List.mem_cons_of_mem _ ho)]
    rw [hself os hall, List.forall₂_map_right_iff] at hos
    exact hos

theorem countP_forall₂ {α β : Type*} {R : α → β → Prop} {q : α → Bool} {q' : β → Bool} {l : List α}
    {l' : List β} (h : List.Forall₂ R l l') (hq : ∀ a b, R a b → q a = q' b) : l.countP q = l'.countP q' := by
  induction h with
  | nil => rfl
  | cons hab _ ih => rw [List.countP_cons, List.countP_cons, ih, hq _ _ hab]

/-- Where one predicate is implied by another and holds as often, they agree. -/
theorem forall₂_of_countP {α β : Type*} {R : α → β → Prop} {q : α → Bool} {q' : β → Bool} {l : List α}
    {l' : List β} (h : List.Forall₂ R l l') (hq : ∀ a b, R a b → q' b = true → q a = true)
    (hcount : l'.countP q' = l.countP q) : List.Forall₂ (fun a b => R a b ∧ (q a = true → q' b = true)) l l' := by
  have hle {l : List α} {l' : List β} (h : List.Forall₂ R l l') : l'.countP q' ≤ l.countP q := by
    induction h with
    | nil => exact Nat.le_refl _
    | @cons a b _ _ hab _ ih =>
      rw [List.countP_cons, List.countP_cons]
      have himp := hq a b hab
      split_ifs with hb ha ha
      · omega
      · exact absurd (himp hb) ha
      · omega
      · omega
  induction h with
  | nil => exact .nil
  | @cons a b _ _ hab htail ih =>
    rw [List.countP_cons, List.countP_cons] at hcount
    have himp := hq a b hab
    have htails := hle htail
    split_ifs at hcount with hb ha ha
    · exact .cons ⟨hab, fun _ => hb⟩ (ih (by omega))
    · exact absurd (himp hb) ha
    · omega
    · exact .cons ⟨hab, fun h => absurd h ha⟩ (ih hcount)

theorem exists_forall₂ {α β : Type*} {R : α → β → Prop} {l : List α} (h : ∀ a ∈ l, ∃ b, R a b) :
    ∃ l', List.Forall₂ R l l' := by
  induction l with
  | nil => exact ⟨[], .nil⟩
  | cons a l ih =>
    obtain ⟨b, hb⟩ := h a List.mem_cons_self
    obtain ⟨l', hl'⟩ := ih fun a ha => h a (List.mem_cons_of_mem _ ha)
    exact ⟨b :: l', .cons hb hl'⟩

theorem exists_of_forall₂ {α β : Type*} {R : α → β → Prop} {l : List α} {l' : List β}
    (h : List.Forall₂ R l l') : ∀ a ∈ l, ∃ b, R a b := by
  induction h with
  | nil => nofun
  | cons hab _ ih => exact List.forall_mem_cons.mpr ⟨⟨_, hab⟩, ih⟩

/-- Rows that are made as they are served are counted as they are served. -/
theorem tally_eq (now : ℤ) (hstored : ∀ row ∈ rows, (accepted env read row.profile).isSome)
    (h : List.Forall₂ (fun row r => Counted env read row r ∧ ∀ f, keptOf r f = servedOf env read row f) rows p) :
    tally now p = servedCounts env read now rows := by
  have hall := (List.forall₂_and_left _ _).mpr ⟨hstored, h⟩
  have hsince (t : ℤ) : p.countP (fun r => t ≤ r.createdAt) = rows.countP fun row =>
      (accepted env read row.profile).isSome && t ≤ row.createdAt.getD 0 :=
    (countP_forall₂ hall fun row r hrow => by rw [hrow.1, hrow.2.1.createdAt, Bool.true_and]).symm
  have htotal : rows.countP (fun row => (accepted env read row.profile).isSome) = rows.length :=
    List.countP_eq_length.mpr hstored
  refine ProfileCounts.ext (h.length_eq.symm.trans htotal.symm) (hsince _) (hsince _) (hsince _)
    (funext fun f => ?_) (funext₂ fun f platform => ?_)
  · exact (countP_forall₂ h fun row r hrow => by rw [hrow.2]; rfl).symm
  · dsimp only [tally, servedCounts]
    split_ifs
    · exact (countP_forall₂ h fun row r hrow => by rw [hrow.2]; rfl).symm
    · rfl

/-- The statistics are the counts over what is served exactly when every stored profile is plain. -/
theorem stats_exact (hread : ∀ p, profilesCte read rows = .ok p → ∀ x ∈ linkPairs p, ReadBack read x)
    {order : List ((ProfileField × Chars) × ℕ) → List ((ProfileField × Chars) × ℕ)}
    (horder : ∀ l, (order l).Perm l) (now : ℤ)
    (hstored : ∀ row ∈ rows, (accepted env read row.profile).isSome) :
    computeStats env read order now rows = .ok (servedCounts env read now rows) ↔
      ∀ row ∈ rows, Plain env read row := by
  constructor
  · intro h row hrow
    cases hp : profilesCte read rows with
    | error e =>
      rw [computeStats, hp] at h
      cases h
    | ok p =>
      rw [computeStats_ok horder hp (hread p hp)] at h
      have hcounts := Except.ok.inj h
      have htotal : rows.countP (fun row => (accepted env read row.profile).isSome) = rows.length :=
        List.countP_eq_length.mpr hstored
      have hlen : p.length = rows.length := (congrArg ProfileCounts.total hcounts).trans htotal
      have hrows := (List.forall₂_and_left _ _).mpr ⟨hstored, profilesCte_inv hp hlen⟩
      -- a field is kept in as many rows as it is served, so in the same ones
      have hfields (f : ProfileField) := exists_of_forall₂ (forall₂_of_countP hrows
        (fun row r hrow hkept => by
          have hserved : (servedOf env read row f).isSome = true :=
            (plain_of_counted hrow.1 hrow.2).1.kept f hkept ▸ hkept
          exact hserved)
        (congrFun (congrArg ProfileCounts.kept hcounts) f)) row hrow
      obtain ⟨r, hr, -⟩ := hfields .avatar
      refine (plain_of_counted hr.1 hr.2).2 fun f hserved => ?_
      obtain ⟨r', hr', hkept⟩ := hfields f
      obtain rfl : r = r' := Option.some.inj (Except.ok.inj (hr.2.symm.trans hr'.2))
      exact hkept hserved
  · intro h
    obtain ⟨p, hp⟩ := exists_forall₂ fun row hrow => (h row hrow).counted (hstored row hrow)
    have hcte := profilesCte_eq (hp.imp fun _ _ hrow => hrow.1.answered)
    rw [computeStats_ok horder hcte (hread p hcte), tally_eq now hstored hp]

end

def sampleText : Chars := "\x7b\"v\":1,\"avatar\":\"https://x.com/alice\"\x7d".toList

def sampleUrl : Chars := "https://x.com/".toList

/-- Reads three texts: a profile with an avatar, the link that the statistics try, and an array. -/
def sampleRead (text : Bytes) : Option Json :=
  if text = utf8 sampleText then
    some (.object [(escape "v".toList, .number ['1']),
      (escape "avatar".toList, .string (escape (sampleUrl ++ "alice".toList)))])
  else if text = utf8 (linkJson .avatar (sampleUrl ++ ['x'])).text then
    some (linkJson .avatar (sampleUrl ++ ['x']))
  else if text = ascii "[1]" then some (.array [.number ['1']])
  else none

def sampleRow : StatsRow := ⟨utf8 sampleText, some 5⟩

def arrayRow : StatsRow := ⟨ascii "[1]", some 5⟩

/-- One avatar is counted. -/
theorem avatar_counted : computeStats NamesSample.env sampleRead id 100 [sampleRow] =
    .ok (servedCounts NamesSample.env sampleRead 100 [sampleRow]) := by
  have hpairs : (profilesCte sampleRead [sampleRow]).map linkPairs = .ok [(.avatar, sampleUrl)] := by
    decide +kernel
  have hread : ∀ p, profilesCte sampleRead [sampleRow] = .ok p → ∀ x ∈ linkPairs p, ReadBack sampleRead x := by
    intro p hp x hx
    rw [hp] at hpairs
    have hlinks : linkPairs p = [(.avatar, sampleUrl)] := Except.ok.inj hpairs
    rw [hlinks, List.mem_singleton] at hx
    subst hx
    rw [ReadBack, sampleRead, if_neg (by decide +kernel), if_pos rfl]
  refine (stats_exact hread (fun l => List.Perm.refl l) 100 (by decide +kernel)).mpr ?_
  intro row hrow
  obtain rfl := List.mem_singleton.mp hrow
  refine ⟨_, if_pos rfl, by decide +kernel, ?_⟩
  rintro (_ | _ | _ | _ | _) <;> decide +kernel

/-- An array is read as a profile and served, but not counted. -/
theorem array_uncounted : (accepted NamesSample.env sampleRead arrayRow.profile).isSome = true ∧
    computeStats NamesSample.env sampleRead id 100 [arrayRow] ≠
      .ok (servedCounts NamesSample.env sampleRead 100 [arrayRow]) := by
  refine ⟨by decide +kernel, fun h => ?_⟩
  have htotal := congrArg (Except.map ProfileCounts.total) h
  revert htotal
  decide +kernel

end KaChatIndexer.NamesProfileStats
