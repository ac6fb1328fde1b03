import KaChatIndexer.KaHashtags

/-!
# The tags of a text

The scan of a text for its tags: the matches of the pattern, which do not overlap, are looked at for
what stands before and behind them. It finds the tags that the text has by their definition.
-/
namespace KaChatIndexer.KaTags
open ByteStrings KaText KaHashtags

/-! ## The scan -/

/-- A match of the pattern, between the characters around it. -/
structure TagMatch where
  before : Option Char
  tag : Text
  after : Option Char
  deriving DecidableEq

/-- The characters of a tag that a text begins with. -/
def tagAhead (u : Unicode) (rest : Text) : Text := (rest.take maxTagChars).takeWhile u.isTagChar

/-- What `VALID_HASHTAG_PATTERN` matches at the start of a text, without the `#`. -/
def matchAt (u : Unicode) : Text → Option Text
  | '#' :: rest => if tagAhead u rest = [] then none else some (tagAhead u rest)
  | _ => none

/-- `find_iter`: the next match is looked for behind the last, whose remaining characters are `skip`. -/
def findIter (u : Unicode) : ℕ → Option Char → Text → List TagMatch
  | _, _, [] => []
  | skip + 1, _, c :: rest => findIter u skip (some c) rest
  | 0, before, c :: rest =>
    match matchAt u (c :: rest) with
    | none => findIter u 0 (some c) rest
    | some tag => ⟨before, tag, (rest.drop tag.length).head?⟩ :: findIter u tag.length (some c) rest

def validBefore (m : TagMatch) : Bool := m.before.all isWhitespace

def validAfter (m : TagMatch) : Bool := m.after.all isTagEnd

/-- Only a match with both boundaries is added. -/
def isValid (m : TagMatch) : Bool := validBefore m && validAfter m

/-- The function as it scans; a set has each tag once. -/
def scanHashtags (u : Unicode) (message : Text) : List Text :=
  match textOf message with
  | none => []
  | some text =>
    (((findIter u 0 none text).filter isValid).map fun m => u.toLowercase m.tag).dedup

/-! ## The tags -/

/-- Up to 30 letters, numbers or `_`. -/
def TagText (u : Unicode) (w : Text) : Prop :=
  1 ≤ w.length ∧ w.length ≤ maxTagChars ∧ ∀ c ∈ w, u.isTagChar c = true

/-- A tag of a text: it stands behind a `#` that begins the text or follows whitespace, with nothing,
whitespace or a punctuation mark behind it. -/
def IsTag (u : Unicode) (text w : Text) : Prop :=
  TagText u w ∧ ∃ pre post, text = pre ++ '#' :: (w ++ post) ∧
    (∀ c ∈ pre.getLast?, isWhitespace c = true) ∧ ∀ c ∈ post.head?, isTagEnd c = true

/-- What the tables say of letters, numbers and `_`: none of them is a `#` or ends a tag. -/
structure Lettered (u : Unicode) : Prop where
  hash : u.isTagChar '#' = false
  ends (c : Char) : isTagEnd c = true → u.isTagChar c = false

/-- The one character whose lowercase is of two characters. -/
def longLower : Char := 'İ'

/-- What the tables say of lowercase texts: each character but one becomes one. -/
def Lowers (u : Unicode) : Prop :=
  ∀ w, (u.toLowercase w).length = w.length + w.count longLower

section
variable {u : Unicode}

theorem all_iff {p : Char → Bool} {o : Option Char} : o.all p = true ↔ ∀ c ∈ o, p c = true := by
  cases o <;> simp

theorem tagAhead_append (rest : Text) :
    tagAhead u rest ++ rest.drop (tagAhead u rest).length = rest :=
  List.prefix_iff_eq_append.mp ((List.takeWhile_prefix _).trans (List.take_prefix _ _))

theorem tagAhead_chars {rest : Text} : ∀ c ∈ tagAhead u rest, u.isTagChar c = true :=
  fun _ hc => List.all_eq_true.mp List.all_takeWhile _ hc

theorem tagAhead_length (rest : Text) : (tagAhead u rest).length ≤ maxTagChars :=
  (List.takeWhile_prefix _).length_le.trans (List.length_take_le _ _)

/-- A tag that ends is met as a whole. -/
theorem tagAhead_eq {w post : Text} (hlength : w.length ≤ maxTagChars)
    (hchars : ∀ c ∈ w, u.isTagChar c = true) (hpost : ∀ c ∈ post.head?, u.isTagChar c = false) :
    tagAhead u (w ++ post) = w := by
  have hend : (post.take (maxTagChars - w.length)).takeWhile u.isTagChar = [] := by
    cases post with
    | nil => simp
    | cons c post =>
      cases maxTagChars - w.length with
      | zero => rfl
      | succ n => rw [List.take_succ_cons, List.takeWhile_cons_of_neg (by simp [hpost c rfl])]
  rw [tagAhead, List.take_append, List.take_of_length_le hlength, List.takeWhile_append_of_pos hchars,
    hend, List.append_nil]

theorem isValid_iff {before after : Option Char} {tag : Text} : isValid ⟨before, tag, after⟩ = true ↔
    before.all isWhitespace = true ∧ after.all isTagEnd = true := Bool.and_eq_true_iff

theorem matchAt_hash (rest : Text) :
    matchAt u ('#' :: rest) = if tagAhead u rest = [] then none else some (tagAhead u rest) := rfl

theorem matchAt_other {c : Char} (hc : c ≠ '#') (rest : Text) : matchAt u (c :: rest) = none := by
  unfold matchAt
  split
  · next heq => exact absurd (List.cons.inj heq).1 hc
  · rfl

theorem findTags_cons (before : Option Char) (c : Char) (rest : Text) :
    findTags u before (c :: rest) =
      if c = '#' ∧ tagAhead u rest ≠ [] ∧ before.all isWhitespace ∧
          (rest.drop (tagAhead u rest).length).head?.all isTagEnd
      then tagAhead u rest :: findTags u (some c) rest
      else findTags u (some c) rest := rfl

theorem findTags_other {c : Char} (hc : c ≠ '#') (before : Option Char) (rest : Text) :
    findTags u before (c :: rest) = findTags u (some c) rest :=
  if_neg fun h => hc h.1

/-- The matches that are valid are the tags that each `#` has: a match covers no other `#`. -/
theorem findIter_valid (h : Lettered u) (skip : ℕ) (before : Option Char) (text : Text)
    (hskip : ∀ c ∈ text.take skip, u.isTagChar c = true) :
    ((findIter u skip before text).filter isValid).map (·.tag) = findTags u before text := by
  induction text generalizing skip before with
  | nil => cases skip <;> rfl
  | cons c rest ih =>
    cases skip with
    | succ skip =>
      rw [List.take_succ_cons] at hskip
      have hc : c ≠ '#' := by
        rintro rfl
        exact absurd (hskip '#' List.mem_cons_self) (ne_true_of_eq_false h.hash)
      rw [findTags_other hc, findIter]
      exact ih skip (some c) fun d hd => hskip d (List.mem_cons_of_mem _ hd)
    | zero =>
      by_cases hc : c = '#'
      · subst hc
        by_cases htag : tagAhead u rest = []
        · have hno : findTags u before ('#' :: rest) = findTags u (some '#') rest :=
            if_neg fun hall => hall.2.1 htag
          rw [hno, findIter, matchAt_hash, if_pos htag]
          exact ih 0 (some '#') (by simp)
        · rw [findIter, matchAt_hash, if_neg htag]
          have hrest := ih (tagAhead u rest).length (some '#') (by
            have hinit := List.prefix_iff_eq_take.mp ⟨_, tagAhead_append (u := u) rest⟩
            rw [← hinit]
            exact tagAhead_chars)
          dsimp only
          rw [findTags_cons, ← hrest]
          by_cases hvalid : before.all isWhitespace = true ∧
              (rest.drop (tagAhead u rest).length).head?.all isTagEnd = true
          · rw [if_pos ⟨rfl, htag, hvalid⟩, List.filter_cons_of_pos (isValid_iff.mpr hvalid),
              List.map_cons]
          · rw [if_neg fun hall => hvalid hall.2.2,
              List.filter_cons_of_neg (mt isValid_iff.mp hvalid)]
      · rw [findTags_other hc, findIter, matchAt_other hc]
        exact ih 0 (some c) (by simp)

/-- The scan finds what is stored with a content. -/
theorem scan_extract (h : Lettered u) (message : Text) :
    scanHashtags u message = extractHashtagsFromBase64 u message := by
  unfold scanHashtags extractHashtagsFromBase64
  cases textOf message with
  | none => rfl
  | some text =>
    dsimp only
    rw [← findIter_valid h 0 none text (by simp), List.map_map]
    rfl

/-- What each `#` has is a tag, and each tag is what its `#` has. -/
theorem mem_findTags (h : Lettered u) {before : Option Char} {text w : Text} :
    w ∈ findTags u before text ↔ TagText u w ∧ ∃ pre post, text = pre ++ '#' :: (w ++ post) ∧
      (∀ c ∈ pre.getLast?.or before, isWhitespace c = true) ∧
      ∀ c ∈ post.head?, isTagEnd c = true := by
  induction text generalizing before with
  | nil => simp [findTags]
  | cons c rest ih =>
    have htag : (c = '#' ∧ tagAhead u rest ≠ [] ∧ before.all isWhitespace ∧
        (rest.drop (tagAhead u rest).length).head?.all isTagEnd) ∧ w = tagAhead u rest ↔
        TagText u w ∧ ∃ post, c :: rest = '#' :: (w ++ post) ∧
          (∀ c ∈ before, isWhitespace c = true) ∧ ∀ c ∈ post.head?, isTagEnd c = true := by
      constructor
      · rintro ⟨⟨rfl, hne, hbefore, hafter⟩, rfl⟩
        refine ⟨⟨List.length_pos_of_ne_nil hne, tagAhead_length rest, tagAhead_chars⟩,
          rest.drop (tagAhead u rest).length, ?_, ?_, ?_⟩
        · rw [tagAhead_append]
        · exact all_iff.mp hbefore
        · exact all_iff.mp hafter
      · rintro ⟨⟨hpos, hlength, hchars⟩, post, heq, hbefore, hafter⟩
        obtain ⟨rfl, rfl⟩ := List.cons.inj heq
        have hw := tagAhead_eq hlength hchars fun d hd => h.ends d (hafter d hd)
        rw [hw, List.drop_left]
        exact ⟨⟨rfl, List.ne_nil_of_length_pos hpos, all_iff.mpr hbefore, all_iff.mpr hafter⟩, rfl⟩
    have hcons : w ∈ findTags u before (c :: rest) ↔
        ((c = '#' ∧ tagAhead u rest ≠ [] ∧ before.all isWhitespace ∧
          (rest.drop (tagAhead u rest).length).head?.all isTagEnd) ∧ w = tagAhead u rest) ∨
        w ∈ findTags u (some c) rest := by
      rw [findTags_cons]
      split
      · next hall => simp only [List.mem_cons, hall, true_and, and_self, ne_eq, not_false_eq_true]
      · next hall => simp only [hall, false_and, false_or]
    rw [hcons, htag, ih, ← and_or_left]
    refine and_congr_right fun _ => ?_
    constructor
    · rintro (⟨post, heq, hbefore, hafter⟩ | ⟨pre, post, rfl, hbefore, hafter⟩)
      · exact ⟨[], post, heq, hbefore, hafter⟩
      · refine ⟨c :: pre, post, rfl, ?_, hafter⟩
        rw [List.getLast?_cons]
        cases hpre : pre.getLast? <;> simpa [hpre] using hbefore
    · rintro ⟨pre, post, heq, hbefore, hafter⟩
      cases pre with
      | nil => exact .inl ⟨post, heq, hbefore, hafter⟩
      | cons d pre =>
        obtain ⟨rfl, rfl⟩ := List.cons.inj heq
        refine .inr ⟨pre, post, rfl, ?_, hafter⟩
        rw [List.getLast?_cons] at hbefore
        cases hpre : pre.getLast? <;> simpa [hpre] using hbefore

/-- The scan returns the tags of the text in lowercase. -/
theorem mem_scan (h : Lettered u) {message text t : Text} (htext : textOf message = some text) :
    t ∈ scanHashtags u message ↔ ∃ w, IsTag u text w ∧ t = u.toLowercase w := by
  rw [scan_extract h, extractHashtagsFromBase64, htext]
  simp only [List.mem_dedup, List.mem_map, mem_findTags h, IsTag, Option.or_none, eq_comm]

theorem scan_nodup (u : Unicode) (message : Text) : (scanHashtags u message).Nodup := by
  unfold scanHashtags
  cases textOf message with
  | none => exact List.nodup_nil
  | some text => exact List.nodup_dedup _

end

/-! ## The column -/

/-- The tags that a message is stored with are those of its text in lowercase, each once, and they fit
their column of 30 characters if and only if each tag of the text has at most 30 characters, counting
the letter that grows twice. -/
theorem tags_fit_iff {u : Unicode} (hletters : Lettered u) (hlower : Lowers u) {message text : Text}
    (htext : textOf message = some text) :
    ((∀ t, t ∈ scanHashtags u message ↔ ∃ w, IsTag u text w ∧ t = u.toLowercase w) ∧
      (scanHashtags u message).Nodup ∧ ∀ t ∈ scanHashtags u message, t.length ≤ maxTagChars) ↔
    ∀ w, IsTag u text w → w.length + w.count longLower ≤ maxTagChars := by
  constructor
  · rintro ⟨-, -, hfits⟩ w hw
    rw [← hlower w]
    exact hfits _ ((mem_scan hletters htext).mpr ⟨w, hw, rfl⟩)
  · intro hshort
    refine ⟨fun t => mem_scan hletters htext, scan_nodup u message, fun t ht => ?_⟩
    obtain ⟨w, hw, rfl⟩ := (mem_scan hletters htext).mp ht
    rw [hlower w]
    exact hshort w hw

/-- The tables for ASCII letters and the one that grows. -/
def dottedUnicode : Unicode where
  isTagChar c := c.isAlphanum || c = '_' || c = longLower
  toLowercase w := w.flatMap fun c => if c = longLower then ['i', '\u0307'] else [c.toLower]

theorem alphanum_range {c : Char} (h : c.isAlphanum = true) :
    ((65 ≤ c.toNat ∧ c.toNat ≤ 90) ∨ 97 ≤ c.toNat ∧ c.toNat ≤ 122) ∨
      48 ≤ c.toNat ∧ c.toNat ≤ 57 := by
  rcases Bool.or_eq_true_iff.mp h with halpha | hdigit
  · rcases Bool.or_eq_true_iff.mp halpha with hupper | hlower
    · exact .inl (.inl (of_decide_eq_true hupper))
    · exact .inl (.inr ((Bool.and_eq_true_iff.mp hlower).imp of_decide_eq_true of_decide_eq_true))
  · exact .inr (Char.isDigit_iff_toNat.mp hdigit)

theorem dotted_lettered : Lettered dottedUnicode where
  hash := by decide
  ends c hc := by
    rw [isTagEnd, Bool.or_eq_true] at hc
    rcases hc with hspace | hmark
    · simp only [dottedUnicode, Bool.or_eq_false_iff, decide_eq_false_iff_not]
      refine ⟨⟨Bool.eq_false_iff.mpr fun hletter => ?_, ?_⟩, ?_⟩
      · simp only [isWhitespace, Bool.or_eq_true, Bool.and_eq_true, decide_eq_true_eq, beq_iff_eq]
          at hspace
        have hrange := alphanum_range hletter
        omega
      · rintro rfl
        exact absurd hspace (by decide)
      · rintro rfl
        exact absurd hspace (by decide)
    · rw [List.contains_iff_mem] at hmark
      have hall : (".,;!?".toList.all fun c => !dottedUnicode.isTagChar c) = true := by decide
      simpa using List.all_eq_true.mp hall c hmark

theorem dotted_lowers : Lowers dottedUnicode := by
  intro w
  induction w with
  | nil => rfl
  | cons c w ih =>
    have hcons : dottedUnicode.toLowercase (c :: w) =
        (if c = longLower then ['i', '\u0307'] else [c.toLower]) ++ dottedUnicode.toLowercase w := rfl
    rw [hcons, List.length_append, ih, List.length_cons]
    by_cases hc : c = longLower
    · rw [if_pos hc, hc, List.count_cons_self, List.length_cons, List.length_singleton]
      omega
    · rw [if_neg hc, List.count_cons_of_ne hc, List.length_singleton]
      omega

/-- `#ok` in base64. -/
def plainMessage : Text := "I29r".toList

theorem plain_tags_fit :
    (∃ t, t ∈ scanHashtags dottedUnicode plainMessage) ∧
      ¬ ∃ t ∈ scanHashtags dottedUnicode plainMessage, maxTagChars < t.length := by
  have htext : textOf plainMessage = some "#ok".toList := by decide +kernel
  have hshort : ∀ w, IsTag dottedUnicode "#ok".toList w → w.length + w.count longLower ≤ maxTagChars := by
    rintro w ⟨-, pre, post, heq, -, -⟩
    have hlength := congrArg List.length heq
    have hcount : w.count longLower ≤ w.length := List.count_le_length
    simp only [List.length_append, List.length_cons] at hlength
    change 3 = _ at hlength
    unfold maxTagChars
    omega
  refine ⟨⟨"ok".toList, by decide +kernel⟩, ?_⟩
  rintro ⟨t, ht, hlong⟩
  have hfits := ((tags_fit_iff dotted_lettered dotted_lowers htext).mpr hshort).2.2 t ht
  omega

/-- `#` and thirty of the letter that grows, in base64. -/
def dottedMessage : Text :=
  "I8SwxLDEsMSwxLDEsMSwxLDEsMSwxLDEsMSwxLDEsMSwxLDEsMSwxLDEsMSwxLDEsMSwxLDEsMSwxLDEsA==".toList

/-- The tag of thirty letters is returned with sixty. -/
theorem dotted_tag_grows :
    textOf dottedMessage = some ('#' :: List.replicate 30 longLower) ∧
      ¬ ∀ t ∈ scanHashtags dottedUnicode dottedMessage, t.length ≤ maxTagChars := by
  decide +kernel

end KaChatIndexer.KaTags
