import KaChatIndexer.PushApi

/-!
# What a signed text determines

The lines of a signed text are free of line feeds, so the text gives back every line; what a line
holds as a hash is given back by the hash.
-/
namespace KaChatIndexer.PushSigned
open ByteStrings KaText PushFields PushAuth

/-! ## Lines -/

@[simp] theorem joinLines_singleton (t : Text) : joinLines [t] = t := by
  simp [joinLines, List.intercalate]

@[simp] theorem joinLines_cons₂ (t u : Text) (l : List Text) :
    joinLines (t :: u :: l) = t ++ '\n' :: joinLines (u :: l) := by
  simp [joinLines, List.intercalate]

theorem joinLines_cons {l : List Text} (h : l ≠ []) (t : Text) :
    joinLines (t :: l) = t ++ '\n' :: joinLines l := by
  cases l with
  | nil => exact absurd rfl h
  | cons u l => exact joinLines_cons₂ t u l

/-- Two texts up to a separator, with as many separators before it. -/
theorem append_cons_inj {α : Type*} [DecidableEq α] {c : α} {a b x y : List α}
    (h : a ++ c :: x = b ++ c :: y) (hcount : a.count c = b.count c) : a = b ∧ x = y := by
  induction a generalizing b with
  | nil =>
    cases b with
    | nil => exact ⟨rfl, (List.cons.inj h).2⟩
    | cons d b =>
      obtain ⟨rfl, -⟩ := List.cons.inj h
      simp at hcount
  | cons d a ih =>
    cases b with
    | nil =>
      obtain ⟨rfl, -⟩ := List.cons.inj h
      simp at hcount
    | cons e b =>
      obtain ⟨rfl, htail⟩ := List.cons.inj h
      have hcount' : a.count c = b.count c := by
        simp only [List.count_cons] at hcount
        omega
      obtain ⟨rfl, hrest⟩ := ih htail hcount'
      exact ⟨rfl, hrest⟩

/-- Lists whose entries span as many lines, one by one, are told apart by their joined text. -/
theorem joinLines_inj_of_count {l m : List Text}
    (hcount : l.map (List.count '\n') = m.map (List.count '\n')) (h : joinLines l = joinLines m) :
    l = m := by
  induction l generalizing m with
  | nil =>
    cases m with
    | nil => rfl
    | cons u m => simp at hcount
  | cons t l ih =>
    cases m with
    | nil => simp at hcount
    | cons u m =>
      obtain ⟨hhead, htail⟩ := List.cons.inj hcount
      cases l with
      | nil =>
        have hm : m = [] := by simpa [eq_comm] using htail
        subst hm
        simpa using h
      | cons t' l =>
        cases m with
        | nil => simp at htail
        | cons u' m =>
          rw [joinLines_cons₂, joinLines_cons₂] at h
          obtain ⟨rfl, hrest⟩ := append_cons_inj h hhead
          rw [ih htail hrest]

theorem joinLines_inj {l m : List Text} (hl : ∀ t ∈ l, '\n' ∉ t) (hm : ∀ t ∈ m, '\n' ∉ t)
    (hl₀ : l ≠ []) (hm₀ : m ≠ []) (h : joinLines l = joinLines m) : l = m := by
  have hsplit : (joinLines l).splitOn '\n' = (joinLines m).splitOn '\n' := by rw [h]
  rwa [joinLines, joinLines, List.splitOn_intercalate '\n' hl hl₀,
    List.splitOn_intercalate '\n' hm hm₀] at hsplit

theorem joinLines_eq_nil {l : List Text} (hne : ∀ t ∈ l, t ≠ []) (h : joinLines l = []) : l = [] := by
  cases l with
  | nil => rfl
  | cons t l =>
    cases l with
    | nil =>
      rw [joinLines_singleton] at h
      exact absurd h (hne t List.mem_cons_self)
    | cons u l => simp at h

/-- A list of texts that are neither empty nor broken is what its joined text says. -/
theorem joinLines_inj_of_kept {l m : List Text} (hl : ∀ t ∈ l, t ≠ [] ∧ '\n' ∉ t)
    (hm : ∀ t ∈ m, t ≠ [] ∧ '\n' ∉ t) (h : joinLines l = joinLines m) : l = m := by
  by_cases hl₀ : l = []
  · subst hl₀
    exact (joinLines_eq_nil (fun t ht => (hm t ht).1) h.symm).symm
  · have hm₀ : m ≠ [] := by
      rintro rfl
      exact hl₀ (joinLines_eq_nil (fun t ht => (hl t ht).1) h)
    exact joinLines_inj (fun t ht => (hl t ht).2) (fun t ht => (hm t ht).2) hl₀ hm₀ h

/-! ## Encodings -/

theorem utf8_eq (t : Text) : utf8 t = t.flatMap String.utf8EncodeChar := by
  rw [utf8, String.toByteArray_ofList, List.utf8Encode, List.data_toByteArray]

theorem utf8_injective : Function.Injective utf8 := by
  intro t u h
  have hbytes : (String.ofList t).toByteArray = (String.ofList u).toByteArray :=
    ByteArray.ext (Array.toList_inj.mp h)
  exact String.ofList_injective (String.toByteArray_inj.mp hbytes)

theorem hexChar_injective : ∀ a < 16, ∀ b < 16, hexChar a = hexChar b → a = b := by decide

theorem hexChar_ne_feed : ∀ a < 16, hexChar a ≠ '\n' := by decide

theorem hexEncode_injective : Function.Injective hexEncode := by
  intro b c h
  induction b generalizing c with
  | nil =>
    cases c with
    | nil => rfl
    | cons y c => simp [hexEncode] at h
  | cons x b ih =>
    cases c with
    | nil => simp [hexEncode] at h
    | cons y c =>
      simp only [hexEncode, List.flatMap_cons, List.cons_append, List.nil_append, List.cons.injEq] at h
      have hx := x.toNat_lt
      have hy := y.toNat_lt
      have hhi := hexChar_injective _ (by omega) _ (by omega) h.1
      have hlo := hexChar_injective _ (by omega) _ (by omega) h.2.1
      rw [UInt8.toNat_inj.mp (show x.toNat = y.toNat by omega), ih h.2.2]

theorem mem_hexEncode {b : Bytes} {c : Char} (h : c ∈ hexEncode b) : ∃ n < 16, c = hexChar n := by
  obtain ⟨x, -, hx⟩ := List.mem_flatMap.mp h
  have hlt := x.toNat_lt
  simp only [List.mem_cons, List.not_mem_nil, or_false] at hx
  rcases hx with hx | hx
  · exact ⟨x.toNat / 16, by omega, hx⟩
  · exact ⟨x.toNat % 16, by omega, hx⟩

theorem hexEncode_clean (b : Bytes) : '\n' ∉ hexEncode b := by
  intro h
  obtain ⟨n, hn, hchar⟩ := mem_hexEncode h
  exact hexChar_ne_feed n hn hchar.symm

theorem decimalText_clean (n : ℕ) : '\n' ∉ decimalText n := by
  intro h
  rw [decimalText, if_neg (by omega)] at h
  have hbounds := toDigits_bounds h
  simp at hbounds

theorem decimalText_injective {m n : ℕ} (h : decimalText m = decimalText n) : m = n := by
  rw [decimalText, decimalText, if_neg (by omega), if_neg (by omega)] at h
  have hdigits : Nat.toDigits 10 m = Nat.toDigits 10 n := h
  rw [← Nat.ofDigitChars_ten_toDigits (n := m), hdigits, Nat.ofDigitChars_ten_toDigits]

theorem line_clean {key : String} {value : Text} (hkey : '\n' ∉ key.toList) (hvalue : '\n' ∉ value) :
    '\n' ∉ line key value := by
  simp [line, hkey, hvalue]

@[simp] theorem line_inj {key : String} {value value' : Text} :
    line key value = line key value' ↔ value = value' := by
  simp [line]

/-! ## The wallet's text -/

section
variable {Address Payload : Type} {env : AuthEnv Address Payload}

theorem hashString_injective (hdigest : Function.Injective env.digest) :
    Function.Injective (hashString env) :=
  fun _ _ h => utf8_injective (hdigest (hexEncode_injective h))

/-- The fields that a signed text holds as they are have no line feed. -/
structure Clean (p : AuthPreimage) : Prop where
  nonce : '\n' ∉ p.nonce
  method : '\n' ∉ p.method
  path : '\n' ∉ p.path
  primaryAddress : '\n' ∉ p.primaryAddress
  walletPubkey : '\n' ∉ p.walletPubkey
  walletAddress : '\n' ∉ p.walletAddress

theorem domain_clean (format : AuthPreimageFormat) : '\n' ∉ format.domain := by
  cases format <;> decide

theorem hashString_clean (value : Text) : '\n' ∉ hashString env value := hexEncode_clean _

theorem authLines_ne_nil (p : AuthPreimage) : authLines env p ≠ [] := by simp [authLines]

theorem authLines_clean {p : AuthPreimage} (hp : Clean p) : ∀ t ∈ authLines env p, '\n' ∉ t := by
  intro t ht
  simp only [authLines, List.mem_append, List.mem_cons, List.mem_ite_nil_right, List.not_mem_nil,
    or_false] at ht
  rcases ht with ((((rfl | ⟨-, rfl⟩) | rfl | rfl | rfl | rfl | rfl) | ⟨-, rfl⟩) | ⟨-, rfl⟩) |
    rfl | rfl | rfl | rfl | rfl | rfl
  · exact line_clean (by decide) (domain_clean _)
  · exact line_clean (by decide) (by decide)
  · exact line_clean (by decide) hp.nonce
  · exact line_clean (by decide) hp.method
  · exact line_clean (by decide) hp.path
  · exact line_clean (by decide) (hashString_clean _)
  · exact line_clean (by decide) (hashString_clean _)
  · exact line_clean (by decide) (hashString_clean _)
  · exact line_clean (by decide) (hashString_clean _)
  · exact line_clean (by decide) hp.primaryAddress
  · exact line_clean (by decide) (hashString_clean _)
  · exact line_clean (by decide) hp.walletPubkey
  · exact line_clean (by decide) hp.walletAddress
  · exact line_clean (by decide) (decimalText_clean _)
  · exact line_clean (by decide) (decimalText_clean _)

/-- What two requests share when they are signed alike. -/
structure Agree (p q : AuthPreimage) : Prop where
  format : p.format = q.format
  nonce : p.nonce = q.nonce
  method : p.method = q.method
  path : p.path = q.path
  deviceToken : p.deviceToken = q.deviceToken
  watchedAddresses : joinLines (canonicalizeWatchedAddresses p.watchedAddresses) =
    joinLines (canonicalizeWatchedAddresses q.watchedAddresses)
  watchedGroupIds : p.format ≠ .legacyV1 → joinLines (canonicalizeWatchedGroupIds p.watchedGroupIds) =
    joinLines (canonicalizeWatchedGroupIds q.watchedGroupIds)
  capabilities : p.format = .v2 → joinLines (canonicalizeCapabilitiesForHash p.capabilities) =
    joinLines (canonicalizeCapabilitiesForHash q.capabilities)
  primaryAddress : p.primaryAddress = q.primaryAddress
  aliases : joinLines (canonicalizeAliases p.aliases) = joinLines (canonicalizeAliases q.aliases)
  walletPubkey : p.walletPubkey = q.walletPubkey
  walletAddress : p.walletAddress = q.walletAddress
  timestampMs : p.timestampMs = q.timestampMs
  expiresAtMs : p.expiresAtMs = q.expiresAtMs

/-- The three formats have different numbers of lines. -/
theorem authLines_length (p : AuthPreimage) : (authLines env p).length =
    match p.format with
    | .legacyV1 => 12
    | .transitionalGroups => 13
    | .v2 => 15 := by
  cases hf : p.format <;> simp [authLines, hf]

theorem format_of_lines {p q : AuthPreimage} (h : authLines env p = authLines env q) :
    p.format = q.format := by
  have hlength := congrArg List.length h
  rw [authLines_length, authLines_length] at hlength
  cases hp : p.format <;> cases hq : q.format <;> simp_all

theorem agree_of_lines (hdigest : Function.Injective env.digest) {p q : AuthPreimage}
    (h : authLines env p = authLines env q) : Agree p q := by
  have hformat := format_of_lines h
  have hhash := hashString_injective hdigest
  have hdecimal {m n : ℕ} (h : decimalText m = decimalText n) : m = n := decimalText_injective h
  cases hq : q.format with
  | legacyV1 =>
    rw [hq] at hformat
    simp only [authLines, hformat, hq] at h
    simp [hhash.eq_iff] at h
    obtain ⟨hnonce, hmethod, hpath, htoken, haddresses, hprimary, haliases, hpubkey, haddress, hts, hexp⟩ := h
    exact ⟨hformat.trans hq.symm, hnonce, hmethod, hpath, htoken, haddresses,
      fun hne => absurd hformat hne, fun hv => absurd (hformat.symm.trans hv) (by decide), hprimary,
      haliases, hpubkey, haddress, hdecimal hts, hdecimal hexp⟩
  | transitionalGroups =>
    rw [hq] at hformat
    simp only [authLines, hformat, hq] at h
    simp [hhash.eq_iff] at h
    obtain ⟨hnonce, hmethod, hpath, htoken, haddresses, hgroups, hprimary, haliases, hpubkey, haddress,
      hts, hexp⟩ := h
    exact ⟨hformat.trans hq.symm, hnonce, hmethod, hpath, htoken, haddresses, fun _ => hgroups,
      fun hv => absurd (hformat.symm.trans hv) (by decide), hprimary, haliases, hpubkey, haddress,
      hdecimal hts, hdecimal hexp⟩
  | v2 =>
    rw [hq] at hformat
    simp only [authLines, hformat, hq] at h
    simp [hhash.eq_iff] at h
    obtain ⟨hnonce, hmethod, hpath, htoken, haddresses, hgroups, hcapabilities, hprimary, haliases,
      hpubkey, haddress, hts, hexp⟩ := h
    exact ⟨hformat.trans hq.symm, hnonce, hmethod, hpath, htoken, haddresses, fun _ => hgroups,
      fun _ => hcapabilities, hprimary, haliases, hpubkey, haddress, hdecimal hts, hdecimal hexp⟩

theorem agree_of_preimage (hdigest : Function.Injective env.digest) {p q : AuthPreimage} (hp : Clean p)
    (hq : Clean q) (h : buildAuthPreimage env p = buildAuthPreimage env q) : Agree p q :=
  agree_of_lines hdigest (joinLines_inj (authLines_clean hp) (authLines_clean hq)
    (authLines_ne_nil p) (authLines_ne_nil q) h)

/-! ## The legacy domain -/

theorem stripPrefix_append (pre t : Text) : KaText.stripPrefix pre (pre ++ t) = some t := by
  induction pre with
  | nil => rfl
  | cons c pre ih => simp [KaText.stripPrefix, ih]

theorem replaceFirst_append {pattern replacement t : Text} (h : pattern ≠ []) :
    replaceFirst pattern replacement (pattern ++ t) = replacement ++ t := by
  cases pattern with
  | nil => exact absurd rfl h
  | cons c pattern =>
    have hstrip := stripPrefix_append (c :: pattern) t
    rw [List.cons_append] at hstrip ⊢
    rw [replaceFirst, hstrip]

theorem domain_line (format : AuthPreimageFormat) :
    ∃ version, line "domain" format.domain = legacyAuthDomainPrefix ++ version := by
  cases format
  · exact ⟨"v1".toList, by decide⟩
  · exact ⟨"v1".toList, by decide⟩
  · exact ⟨"v2".toList, by decide⟩

variable (env) in
theorem preimage_starts (p : AuthPreimage) :
    ∃ rest, buildAuthPreimage env p = legacyAuthDomainPrefix ++ rest := by
  obtain ⟨version, hversion⟩ := domain_line p.format
  obtain ⟨l, hl, hlines⟩ : ∃ l, l ≠ [] ∧ authLines env p = line "domain" p.format.domain :: l := by
    simp [authLines]
  refine ⟨version ++ '\n' :: joinLines l, ?_⟩
  rw [buildAuthPreimage, hlines, joinLines_cons hl, hversion, List.append_assoc]

theorem legacyPreimage_append (rest : Text) : legacyPreimage (legacyAuthDomainPrefix ++ rest) =
    legacyAuthDomainPrefixReplacement ++ rest := replaceFirst_append (by decide)

theorem preimage_of_legacy {p q : AuthPreimage}
    (h : legacyPreimage (buildAuthPreimage env p) = legacyPreimage (buildAuthPreimage env q)) :
    buildAuthPreimage env p = buildAuthPreimage env q := by
  obtain ⟨s, hs⟩ := preimage_starts env p
  obtain ⟨t, ht⟩ := preimage_starts env q
  rw [hs, ht, legacyPreimage_append, legacyPreimage_append] at h
  rw [hs, ht, List.append_cancel_left h]

/-- No text of the current domain is one of the legacy domain. -/
theorem preimage_ne_legacy (p q : AuthPreimage) :
    buildAuthPreimage env p ≠ legacyPreimage (buildAuthPreimage env q) := by
  obtain ⟨s, hs⟩ := preimage_starts env p
  obtain ⟨t, ht⟩ := preimage_starts env q
  rw [hs, ht, legacyPreimage_append]
  intro h
  have htake := congrArg (List.take 10) h
  rw [List.take_append_of_le_length (by decide), List.take_append_of_le_length (by decide)] at htake
  exact absurd htake (by decide)

/-- A text that a signature of the request may be over. -/
def Signable (env : AuthEnv Address Payload) (p : AuthPreimage) (m : Text) : Prop :=
  m = buildAuthPreimage env p ∨ m = legacyPreimage (buildAuthPreimage env p)

/-- The same text, or one is the other's in the legacy domain. -/
def SameText (env : AuthEnv Address Payload) (p q : AuthPreimage) (m n : Text) : Prop :=
  m = n ∨ m = legacyPreimage (buildAuthPreimage env q) ∨ n = legacyPreimage (buildAuthPreimage env p)

theorem preimage_of_sameText {p q : AuthPreimage} {m n : Text} (hm : Signable env p m)
    (hn : Signable env q n) (h : SameText env p q m n) :
    buildAuthPreimage env p = buildAuthPreimage env q := by
  rcases hm with rfl | rfl <;> rcases hn with rfl | rfl <;> rcases h with h | h | h
  · exact h
  · exact absurd h (preimage_ne_legacy p q)
  · exact absurd h (preimage_ne_legacy q p)
  · exact absurd h (preimage_ne_legacy p q)
  · exact absurd h (preimage_ne_legacy p q)
  · exact (preimage_of_legacy h).symm
  · exact absurd h.symm (preimage_ne_legacy q p)
  · exact preimage_of_legacy h
  · exact absurd h (preimage_ne_legacy q p)
  · exact preimage_of_legacy h
  · exact preimage_of_legacy h
  · exact (preimage_of_legacy h).symm

end

end KaChatIndexer.PushSigned
