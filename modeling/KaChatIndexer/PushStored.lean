import KaChatIndexer.PushApi
import KaChatIndexer.Fallible
import Mathlib.Data.List.DropRight

/-!
# What the registry stores

Each field of a registration as its normaliser leaves it, and the registrations that a run of commands
leaves behind.
-/
namespace KaChatIndexer.PushStored
open ByteStrings KaText PushFields PushAuth PushRegistry Fallible

/-! ## Texts -/

theorem trim_self {t : Text} (h : ∀ c ∈ t, isWhitespace c = false) : trim t = t := by
  have hdrop {u : Text} (hu : ∀ c ∈ u, isWhitespace c = false) : u.dropWhile isWhitespace = u := by
    cases u with
    | nil => rfl
    | cons c u => rw [List.dropWhile_cons_of_neg (by simp [hu c List.mem_cons_self])]
  rw [trim, hdrop h, hdrop (fun c hc => h c (List.mem_reverse.mp hc)), List.reverse_reverse]

/-- What is trimmed starts with no white space. -/
theorem dropWhile_trim (t : Text) : (trim t).dropWhile isWhitespace = trim t := by
  have hprefix : trim t <+: t.dropWhile isWhitespace := by
    have hsuffix := List.dropWhile_suffix (l := (t.dropWhile isWhitespace).reverse) isWhitespace
    rwa [← List.reverse_prefix, List.reverse_reverse] at hsuffix
  cases ht : trim t with
  | nil => rfl
  | cons c u =>
    obtain ⟨rest, hrest⟩ := hprefix
    rw [ht, List.cons_append] at hrest
    have hhead := List.head?_dropWhile_not isWhitespace t
    rw [← hrest] at hhead
    rw [List.dropWhile_cons_of_neg (by simpa using hhead)]

@[simp] theorem trim_trim (t : Text) : trim (trim t) = trim t := by
  conv_lhs => rw [trim, dropWhile_trim]
  rw [trim, List.reverse_reverse, List.dropWhile_idempotent]

theorem toAsciiLowercase_self {t : Text} (h : ∀ c ∈ t, ¬('A' ≤ c ∧ c ≤ 'Z')) :
    toAsciiLowercase t = t := by
  rw [toAsciiLowercase, List.map_congr_left fun c hc => if_neg (h c hc), List.map_id']

theorem toAsciiLowercase_ne_nil {t : Text} (h : t ≠ []) : toAsciiLowercase t ≠ [] := by
  simpa [toAsciiLowercase] using h

theorem toNat_lower {c : Char} (h : 'A' ≤ c ∧ c ≤ 'Z') :
    (Char.ofNat (c.toNat + 32)).toNat = c.toNat + 32 := by
  have hall : ∀ n < 128, (Char.ofNat n).toNat = n := by decide +kernel
  have hZ : c.toNat ≤ 0x5a := h.2
  exact hall _ (by omega)

theorem isWhitespace_lower (c : Char) :
    isWhitespace (if 'A' ≤ c ∧ c ≤ 'Z' then Char.ofNat (c.toNat + 32) else c) = isWhitespace c := by
  split
  · next h =>
    have hA : 0x41 ≤ c.toNat := h.1
    have hZ : c.toNat ≤ 0x5a := h.2
    rw [Bool.eq_iff_iff]
    simp only [isWhitespace, toNat_lower h, Bool.or_eq_true, Bool.and_eq_true, decide_eq_true_eq, beq_iff_eq]
    omega
  · rfl

theorem trim_toAsciiLowercase (t : Text) : trim (toAsciiLowercase t) = toAsciiLowercase (trim t) := by
  have hspace : (isWhitespace ∘ fun c => if 'A' ≤ c ∧ c ≤ 'Z' then Char.ofNat (c.toNat + 32) else c) =
      isWhitespace := funext isWhitespace_lower
  simp only [trim, toAsciiLowercase, List.dropWhile_map, hspace, ← List.map_reverse]

theorem lower_not_upper (c : Char) :
    ¬('A' ≤ (if 'A' ≤ c ∧ c ≤ 'Z' then Char.ofNat (c.toNat + 32) else c) ∧
      (if 'A' ≤ c ∧ c ≤ 'Z' then Char.ofNat (c.toNat + 32) else c) ≤ 'Z') := by
  split
  · next h =>
    have hA : 0x41 ≤ c.toNat := h.1
    rintro ⟨-, hle⟩
    have hle' : (Char.ofNat (c.toNat + 32)).toNat ≤ 0x5a := hle
    rw [toNat_lower h] at hle'
    omega
  · next h => exact h

theorem mem_toAsciiLowercase {t : Text} {c : Char} (h : c ∈ toAsciiLowercase t) :
    ¬('A' ≤ c ∧ c ≤ 'Z') := by
  obtain ⟨d, -, rfl⟩ := List.mem_map.mp h
  exact lower_not_upper d

theorem mem_kept {f : Text → Text} {values : List Text} {t : Text} :
    t ∈ kept f values ↔ ∃ v ∈ values, trim v ≠ [] ∧ f (trim v) = t := by
  simp [kept, and_assoc]

@[simp] theorem mem_normalizeAliasesVec {aliases : List Text} {t : Text} :
    t ∈ normalizeAliasesVec aliases ↔ ∃ v ∈ aliases, trim v ≠ [] ∧ trim v = t := by
  rw [normalizeAliasesVec, mem_sortedSet, mem_kept]
  rfl

/-- Aliases that are normalised stay as they are. -/
theorem normalizeAliasesVec_idem (aliases : List Text) :
    normalizeAliasesVec (normalizeAliasesVec aliases) = normalizeAliasesVec aliases := by
  apply sortedSet_congr
  intro t
  rw [mem_kept, mem_kept]
  constructor
  · rintro ⟨v, hv, -, rfl⟩
    obtain ⟨w, hw, hne, rfl⟩ := mem_normalizeAliasesVec.mp hv
    exact ⟨w, hw, hne, (trim_trim w).symm⟩
  · rintro ⟨v, hv, hne, rfl⟩
    have htrim : trim v ≠ [] := hne
    exact ⟨trim v, mem_normalizeAliasesVec.mpr ⟨v, hv, hne, rfl⟩, by rwa [trim_trim], trim_trim v⟩

theorem sortedSet_idem (l : List Text) : sortedSet (sortedSet l) = sortedSet l :=
  sortedSet_congr fun _ => mem_sortedSet

/-! ## Device tokens -/

theorem hexdigit_ascii {c : Char} (h : isAsciiHexdigit c = true) : ∃ n < 128, c = Char.ofNat n := by
  refine ⟨c.toNat, ?_, (Char.ofNat_toNat c).symm⟩
  obtain ⟨x, hx⟩ := Option.isSome_iff_exists.mp h
  unfold hexDigit at hx
  split at hx
  · next hd => exact lt_of_le_of_lt (show c.toNat ≤ 0x39 from hd.2) (by decide)
  · split at hx
    · next hd => exact lt_of_le_of_lt (show c.toNat ≤ 0x66 from hd.2) (by decide)
    · split at hx
      · next hd => exact lt_of_le_of_lt (show c.toNat ≤ 0x46 from hd.2) (by decide)
      · cases hx

/-- A hex digit stays one in lower case, takes one byte and is neither white space nor an `h`. -/
theorem hexdigit_lower {c : Char} (h : isAsciiHexdigit c = true) :
    isAsciiHexdigit (if 'A' ≤ c ∧ c ≤ 'Z' then Char.ofNat (c.toNat + 32) else c) = true ∧
      c.utf8Size = 1 ∧ isWhitespace c = false ∧ c ≠ 'h' := by
  have hall : ∀ n < 128, isAsciiHexdigit (Char.ofNat n) = true →
      isAsciiHexdigit (if 'A' ≤ Char.ofNat n ∧ Char.ofNat n ≤ 'Z' then
          Char.ofNat ((Char.ofNat n).toNat + 32) else Char.ofNat n) = true ∧
        (Char.ofNat n).utf8Size = 1 ∧ isWhitespace (Char.ofNat n) = false ∧ Char.ofNat n ≠ 'h' := by
    decide +kernel
  obtain ⟨n, hn, rfl⟩ := hexdigit_ascii h
  exact hall n hn h

theorem len_hex {t : Text} (h : ∀ c ∈ t, isAsciiHexdigit c = true) : len t = t.length := by
  induction t with
  | nil => rfl
  | cons c t ih =>
    have htail := ih fun d hd => h d (List.mem_cons_of_mem _ hd)
    have hsize := (hexdigit_lower (h c List.mem_cons_self)).2.1
    simp only [len, List.map_cons, List.sum_cons, List.length_cons] at htail ⊢
    omega

theorem lower_hex {t : Text} (h : ∀ c ∈ t, isAsciiHexdigit c = true) :
    ∀ c ∈ toAsciiLowercase t, isAsciiHexdigit c = true := by
  intro c hc
  obtain ⟨d, hd, rfl⟩ := List.mem_map.mp hc
  exact (hexdigit_lower (h d hd)).1

theorem startsWith_hex {t : Text} (h : ∀ c ∈ t, isAsciiHexdigit c = true) :
    startsWith "https://".toList t = false := by
  cases t with
  | nil => rfl
  | cons c t =>
    have hc := (hexdigit_lower (h c List.mem_cons_self)).2.2.2
    rw [startsWith, show "https://".toList = 'h' :: "ttps://".toList by decide, KaText.stripPrefix,
      if_neg (Ne.symm hc)]
    rfl

/-- A normalised device token stays as it is. -/
theorem normalizeDeviceToken_idem {token t : Text} (h : normalizeDeviceToken token = .ok t) :
    normalizeDeviceToken t = .ok t := by
  have hsplit := h
  simp only [normalizeDeviceToken] at hsplit
  split at hsplit
  · split at hsplit
    · cases hsplit
    · split at hsplit
      · cases hsplit
      · obtain rfl := Except.ok.inj hsplit
        rw [normalizeDeviceToken, trim_trim]
        exact h
  · split at hsplit
    · split at hsplit
      · cases hsplit
      · next hlen =>
        obtain rfl := Except.ok.inj hsplit
        have hcleaned : ∀ c ∈ (trim token).filter isAsciiHexdigit, isAsciiHexdigit c = true :=
          fun c hc => (List.mem_filter.mp hc).2
        have hhex := lower_hex hcleaned
        have hlength : len (toAsciiLowercase ((trim token).filter isAsciiHexdigit)) =
            len ((trim token).filter isAsciiHexdigit) := by
          rw [len_hex hhex, len_hex hcleaned, toAsciiLowercase, List.length_map]
        rw [normalizeDeviceToken, trim_self fun c hc => (hexdigit_lower (hhex c hc)).2.2.1]
        simp only [startsWith_hex hhex, Bool.false_eq_true, if_false]
        rw [if_pos (List.all_eq_true.mpr fun c hc => by rw [hhex c hc, Bool.true_or]),
          List.filter_eq_self.mpr hhex, hlength, if_neg hlen,
          toAsciiLowercase_self fun c => mem_toAsciiLowercase]
    · split at hsplit
      · cases hsplit
      · split at hsplit
        · cases hsplit
        · obtain rfl := Except.ok.inj hsplit
          rw [normalizeDeviceToken, trim_trim]
          exact h

/-! ## Addresses -/

/-- The characters of an address: its network, a colon and the letters and digits of its payload. -/
def isAddressChar (c : Char) : Bool := ('a' ≤ c && c ≤ 'z') || ('0' ≤ c && c ≤ '9') || c == ':'

/-- What is known of the crate that reads and writes addresses: an address is written in lower-case
letters, digits and a colon, and read back as it was written. -/
structure LawfulAddresses {Address Payload : Type} (env : AddressEnv Address Payload) : Prop where
  chars : ∀ {t : Text} {a : Address}, env.parse t = some a → t ≠ [] ∧ t.all isAddressChar = true
  reads : ∀ {t : Text} {a : Address}, env.parse t = some a → env.parse (env.text a) = some a

theorem addressChar_cases {c : Char} (h : isAddressChar c = true) :
    (0x61 ≤ c.toNat ∧ c.toNat ≤ 0x7a) ∨ (0x30 ≤ c.toNat ∧ c.toNat ≤ 0x3a) := by
  simp only [isAddressChar, Bool.or_eq_true, Bool.and_eq_true, decide_eq_true_eq, beq_iff_eq] at h
  rcases h with (h | h) | rfl
  · exact .inl h
  · have hnine : c.toNat ≤ 0x39 := h.2
    exact .inr ⟨h.1, by omega⟩
  · exact .inr (by decide)

theorem addressChar_plain {c : Char} (h : isAddressChar c = true) :
    isWhitespace c = false ∧ ¬('A' ≤ c ∧ c ≤ 'Z') ∧ c ≠ '\n' := by
  have hrange := addressChar_cases h
  refine ⟨?_, ?_, ?_⟩
  · simp only [isWhitespace, Bool.or_eq_false_iff, Bool.and_eq_false_iff, decide_eq_false_iff_not,
      beq_eq_false_iff_ne]
    omega
  · rintro ⟨hA, hZ⟩
    have hA' : 0x41 ≤ c.toNat := hA
    have hZ' : c.toNat ≤ 0x5a := hZ
    omega
  · rintro rfl
    exact absurd h (by decide)

/-- A text in canonical form, with what the index keeps of the address. -/
def IsAddress {Address Payload : Type} (env : AddressEnv Address Payload) (t : Text)
    (payload : Payload) : Prop :=
  ∃ a, env.parse t = some a ∧ env.text a = t ∧ env.payload a = some payload

section
variable {Address Payload : Type} {env : AddressEnv Address Payload}

theorem LawfulAddresses.plain (henv : LawfulAddresses env) {t : Text} {a : Address}
    (h : env.parse t = some a) : trim t = t ∧ toAsciiLowercase t = t ∧ '\n' ∉ t := by
  have hall := List.all_eq_true.mp (henv.chars h).2
  exact ⟨trim_self fun c hc => (addressChar_plain (hall c hc)).1,
    toAsciiLowercase_self fun c hc => (addressChar_plain (hall c hc)).2.1,
    fun hmem => (addressChar_plain (hall _ hmem)).2.2 rfl⟩

theorem LawfulAddresses.isAddress (henv : LawfulAddresses env) {t : Text} {a : Address}
    {payload : Payload} (h : env.parse t = some a) (hpayload : env.payload a = some payload) :
    IsAddress env (env.text a) payload :=
  ⟨a, henv.reads h, rfl, hpayload⟩

theorem IsAddress.payload_eq {t : Text} {payload : Payload} (h : IsAddress env t payload) :
    addressToPayload env t = .ok payload := by
  obtain ⟨a, hparse, -, hpayload⟩ := h
  rw [addressToPayload, hparse, show okOr _ (some a) = .ok a from rfl]
  show okOr _ (env.payload a) = _
  rw [hpayload]
  rfl

theorem okOr_ok {α : Type*} {e : Text} {o : Option α} {a : α} (h : okOr e o = .ok a) : o = some a := by
  cases o with
  | none => cases h
  | some b => rw [Except.ok.inj h]

theorem insertNew_keys {α : Type} {key : Text} {value : α} {acc : List (Text × α)} {k : Text} :
    k ∈ (insertNew key value acc).map Prod.fst ↔ k ∈ acc.map Prod.fst ∨ k = key := by
  by_cases h : key ∈ acc.map Prod.fst
  · rw [insertNew, if_pos h]
    exact ⟨.inl, fun hk => hk.elim id fun hk => hk ▸ h⟩
  · rw [insertNew, if_neg h, List.map_append, List.mem_append, List.map_singleton, List.mem_singleton]

theorem insertNew_nodup {α : Type} {key : Text} {value : α} {acc : List (Text × α)}
    (h : (acc.map Prod.fst).Nodup) : ((insertNew key value acc).map Prod.fst).Nodup := by
  by_cases hkey : key ∈ acc.map Prod.fst
  · rwa [insertNew, if_pos hkey]
  · rw [insertNew, if_neg hkey, List.map_append, List.map_singleton]
    exact h.append (List.nodup_singleton _) (by simpa using hkey)

theorem insertNew_mem {α : Type} {key : Text} {value : α} {acc : List (Text × α)} {e : Text × α}
    (h : e ∈ insertNew key value acc) : e ∈ acc ∨ e = (key, value) := by
  by_cases hkey : key ∈ acc.map Prod.fst
  · rw [insertNew, if_pos hkey] at h
    exact .inl h
  · rwa [insertNew, if_neg hkey, List.mem_append, List.mem_singleton] at h

/-- Entries under canonical texts, one for each, and the texts are those of the addresses read. -/
theorem normalizeAddressesFrom_spec (henv : LawfulAddresses env) {l : List Text}
    {acc out : List (Text × Payload)} (hok : normalizeAddressesFrom env acc l = .ok out)
    (hacc : ∀ e ∈ acc, IsAddress env e.1 e.2) (hnodup : (acc.map Prod.fst).Nodup) :
    (∀ e ∈ out, IsAddress env e.1 e.2) ∧ (out.map Prod.fst).Nodup ∧
      (∀ t ∈ l, ∃ a, env.parse t = some a) ∧
      ∀ k, k ∈ out.map Prod.fst ↔
        k ∈ acc.map Prod.fst ∨ ∃ t ∈ l, (env.parse t).map env.text = some k := by
  induction l generalizing acc with
  | nil =>
    obtain rfl := Except.ok.inj hok
    exact ⟨hacc, hnodup, by simp, by simp⟩
  | cons t l ih =>
    obtain ⟨a, ha, hok⟩ := bind_ok hok
    obtain ⟨payload, hpayload, hok⟩ := bind_ok hok
    have hparse := okOr_ok ha
    have haddress := henv.isAddress hparse (okOr_ok hpayload)
    obtain ⟨hall, hkeys, hread, hmem⟩ := ih hok
      (fun e he => (insertNew_mem he).elim (hacc e) fun he => he ▸ haddress) (insertNew_nodup hnodup)
    refine ⟨hall, hkeys, ?_, fun k => ?_⟩
    · rintro u (_ | ⟨_, hu⟩)
      · exact ⟨a, hparse⟩
      · exact hread u hu
    · rw [hmem, insertNew_keys, List.exists_mem_cons_iff, hparse, Option.map_some, Option.some.injEq,
        or_assoc, eq_comm (a := k)]

theorem normalizeAddresses_spec (henv : LawfulAddresses env) {l : List Text}
    {out : List (Text × Payload)} (hok : normalizeAddresses env l = .ok out) :
    (∀ e ∈ out, IsAddress env e.1 e.2) ∧ (out.map Prod.fst).Nodup ∧
      (∀ t ∈ l, ∃ a, env.parse t = some a) ∧
      ∀ k, k ∈ out.map Prod.fst ↔ ∃ t ∈ l, (env.parse t).map env.text = some k := by
  simpa using normalizeAddressesFrom_spec henv hok (by simp) (by simp)

end

/-! ## Group ids -/

/-- A group id in lower case, with its bytes. -/
structure IsGroupId {Address Payload : Type} (env : AddressEnv Address Payload) (t : Text)
    (b : Bytes) : Prop where
  decodes : decodeGroupIdHex env t = .ok b
  bytes : hexDecode t = some b
  lower : toAsciiLowercase t = t
  ne_nil : t ≠ []

section
variable {Address Payload : Type} {env : AddressEnv Address Payload}

theorem isGroupId_of_decode {g : Text} {b : Bytes}
    (h : decodeGroupIdHex env (toAsciiLowercase (trim g)) = .ok b) :
    IsGroupId env (toAsciiLowercase (trim g)) b := by
  have hdecode := h
  rw [decodeGroupIdHex, trim_toAsciiLowercase, trim_trim] at hdecode
  split at hdecode
  · cases hdecode
  · next hlen =>
    refine ⟨h, okOr_ok hdecode, toAsciiLowercase_self fun c => mem_toAsciiLowercase, ?_⟩
    intro hnil
    rw [hnil] at hlen
    exact hlen (by decide)

theorem IsGroupId.unique {t t' : Text} {b : Bytes} (h : IsGroupId env t b) (h' : IsGroupId env t' b) :
    t = t' := by
  rw [← h.lower, ← h'.lower, hexDecode_inj h.bytes h'.bytes]

theorem IsGroupId.no_feed {t : Text} {b : Bytes} (h : IsGroupId env t b) : '\n' ∉ t := fun hmem =>
  absurd (hexDecode_chars h.bytes _ hmem) (by decide)

theorem normalizeGroupIdsFrom_spec {l : List Text} {acc out : List (Text × Bytes)}
    (hok : normalizeGroupIdsFrom env acc l = .ok out) (hacc : ∀ e ∈ acc, IsGroupId env e.1 e.2)
    (hnodup : (acc.map Prod.fst).Nodup) :
    (∀ e ∈ out, IsGroupId env e.1 e.2) ∧ (out.map Prod.fst).Nodup ∧
      (∀ g ∈ l, ∃ b, IsGroupId env (toAsciiLowercase (trim g)) b) ∧
      ∀ k, k ∈ out.map Prod.fst ↔ k ∈ acc.map Prod.fst ∨ ∃ g ∈ l, toAsciiLowercase (trim g) = k := by
  induction l generalizing acc with
  | nil =>
    obtain rfl := Except.ok.inj hok
    exact ⟨hacc, hnodup, by simp, by simp⟩
  | cons g l ih =>
    obtain ⟨b, hb, hok⟩ := bind_ok hok
    have hgroup := isGroupId_of_decode hb
    obtain ⟨hall, hkeys, hread, hmem⟩ := ih hok
      (fun e he => (insertNew_mem he).elim (hacc e) fun he => he ▸ hgroup) (insertNew_nodup hnodup)
    refine ⟨hall, hkeys, ?_, fun k => ?_⟩
    · rintro u (_ | ⟨_, hu⟩)
      · exact ⟨b, hgroup⟩
      · exact hread u hu
    · rw [hmem, insertNew_keys, List.exists_mem_cons_iff, or_assoc,
        eq_comm (a := toAsciiLowercase (trim g))]

theorem normalizeGroupIds_spec {l : List Text} {out : List (Text × Bytes)}
    (hok : normalizeGroupIds env l = .ok out) :
    (∀ e ∈ out, IsGroupId env e.1 e.2) ∧ (out.map Prod.fst).Nodup ∧
      (∀ g ∈ l, ∃ b, IsGroupId env (toAsciiLowercase (trim g)) b) ∧
      ∀ k, k ∈ out.map Prod.fst ↔ ∃ g ∈ l, toAsciiLowercase (trim g) = k := by
  simpa using normalizeGroupIdsFrom_spec hok (by simp) (by simp)

end

/-! ## Capabilities and the primary address -/

theorem normalizeCapabilities_spec {values out : List Text} (h : normalizeCapabilities values = .ok out) :
    out = canonicalizeCapabilitiesForHash values ∧ ∀ t ∈ out, isCapability t = true := by
  simp only [normalizeCapabilities] at h
  split at h
  · next hall =>
    obtain rfl := Except.ok.inj h
    exact ⟨rfl, fun t ht => List.all_eq_true.mp hall t (mem_sortedSet.mp ht)⟩
  · cases h

section
variable {Address Payload Ext : Type} {env : RegistryEnv Address Payload}

theorem normalizePrimaryAddress_some (henv : LawfulAddresses env.toAddressEnv) {address : Option Text}
    {t : Text} (h : normalizePrimaryAddress env.toAddressEnv address = some t) :
    ∃ a, env.parse t = some a ∧ env.text a = t := by
  obtain ⟨u, -, hu⟩ := Option.bind_eq_some_iff.mp h
  obtain ⟨a, ha, rfl⟩ := Option.map_eq_some_iff.mp hu
  exact ⟨a, henv.reads ha, rfl⟩

/-- A canonical primary address is what it was normalised to. -/
theorem normalizePrimaryAddress_text (henv : LawfulAddresses env.toAddressEnv) {t : Text} {a : Address}
    (hparse : env.parse t = some a) (htext : env.text a = t) :
    normalizePrimaryAddress env.toAddressEnv (some t) = some t := by
  rw [normalizePrimaryAddress, Option.bind_some, (henv.plain hparse).1, hparse, Option.map_some, htext]

theorem normalizePrimary_spec (henv : LawfulAddresses env.toAddressEnv) {address : Option Text}
    {out : Option (Text × Payload)} (h : normalizePrimary env address = .ok out) :
    out.map Prod.fst = normalizePrimaryAddress env.toAddressEnv address ∧
      ∀ p ∈ out, IsAddress env.toAddressEnv p.1 p.2 := by
  rw [normalizePrimary] at h
  split at h
  · next hnone =>
    obtain rfl := Except.ok.inj h
    exact ⟨hnone.symm, by simp⟩
  · next t ht =>
    obtain ⟨payload, hpayload, rfl⟩ := map_ok h
    obtain ⟨a, hparse, htext⟩ := normalizePrimaryAddress_some henv ht
    refine ⟨ht.symm, ?_⟩
    rintro p hp
    obtain rfl := Option.some.inj hp
    obtain ⟨a', ha', hpayload⟩ := bind_ok hpayload
    obtain rfl : a = a' := Option.some.inj (hparse.symm.trans (okOr_ok ha'))
    exact ⟨a, hparse, htext, okOr_ok hpayload⟩

/-- The fields of a request beside what they are normalised to. -/
structure NormalizedFrom (env : RegistryEnv Address Payload) (args : RegistrationArgs Ext)
    (n : Normalized Payload) : Prop where
  token : normalizeDeviceToken args.token = .ok n.token
  addresses : normalizeAddresses env.toAddressEnv args.watchedAddresses = .ok n.addresses
  groupIds : normalizeGroupIds env.toAddressEnv args.watchedGroupIds = .ok n.groupIds
  capabilities : normalizeCapabilities args.capabilities = .ok n.capabilities
  aliases : n.aliases = normalizeAliasesVec args.aliases
  primary : normalizePrimary env args.primaryAddress = .ok n.primary

theorem normalizeArgs_spec {platform : Option Text} {args : RegistrationArgs Ext}
    {n : Normalized Payload} (h : normalizeArgs env platform args = .ok n) :
    NormalizedFrom env args n := by
  obtain ⟨_, -, h⟩ := bind_ok h
  obtain ⟨platform', -, h⟩ := bind_ok h
  obtain ⟨token, htoken, h⟩ := bind_ok h
  obtain ⟨addresses, haddresses, h⟩ := bind_ok h
  obtain ⟨groupIds, hgroupIds, h⟩ := bind_ok h
  obtain ⟨capabilities, hcapabilities, h⟩ := bind_ok h
  obtain ⟨primary, hprimary, h⟩ := bind_ok h
  dsimp only at h
  split at h
  · cases h
  · obtain rfl := Except.ok.inj h
    exact ⟨htoken, haddresses, hgroupIds, hcapabilities, rfl, hprimary⟩

theorem prepare_spec {r : Registry Payload Ext} {platform : Option Text} {args : RegistrationArgs Ext}
    {now : ℕ} {n : Normalized Payload} {registration : DeviceRegistration Ext}
    (h : prepare env r platform args now = .ok (n, registration)) :
    normalizeArgs env platform args = .ok n ∧
      ∃ wallet device, resolveWalletBinding (r.devices.lookup n.token) args.walletBinding = .ok wallet ∧
        resolveDeviceKeyBinding (r.devices.lookup n.token) args.deviceKeyBinding = .ok device ∧
        registration =
          buildRegistration env n args (r.devices.lookup n.token) wallet device now := by
  obtain ⟨n', hn, h⟩ := bind_ok h
  obtain ⟨wallet, hwallet, h⟩ := bind_ok h
  obtain ⟨device, hdevice, h⟩ := bind_ok h
  obtain ⟨rfl, rfl⟩ := Prod.mk.inj (Except.ok.inj h)
  exact ⟨hn, wallet, device, hwallet, hdevice, rfl⟩

/-- A registration as the registry stores it. -/
structure Stored (env : RegistryEnv Address Payload) (token : Text) (old : DeviceRegistration Ext) :
    Prop where
  deviceToken : old.deviceToken = token
  addresses : ∀ t ∈ old.watchedAddresses, ∃ payload, IsAddress env.toAddressEnv t payload
  groupIds : ∀ t ∈ old.watchedGroupIds, ∃ b, IsGroupId env.toAddressEnv t b
  capabilities : sortedSet old.capabilities = old.capabilities
  aliases : normalizeAliasesVec old.aliases = old.aliases
  primaryAddress : ∀ t ∈ old.primaryAddress, ∃ payload, IsAddress env.toAddressEnv t payload

def Filed (env : RegistryEnv Address Payload) (r : Registry Payload Ext) : Prop :=
  ∀ token old, r.devices.lookup token = some old → Stored env token old

theorem stored_build (henv : LawfulAddresses env.toAddressEnv) {args : RegistrationArgs Ext}
    {n : Normalized Payload} (h : NormalizedFrom env args n) (existing : Option (DeviceRegistration Ext))
    (wallet : Option WalletBinding) (device : Option DeviceKeyBinding) (now : ℕ) :
    Stored env n.token (buildRegistration env n args existing wallet device now) where
  deviceToken := rfl
  addresses t ht := by
    obtain ⟨e, he, rfl⟩ := List.mem_map.mp ht
    exact ⟨e.2, (normalizeAddresses_spec henv h.addresses).1 e he⟩
  groupIds t ht := by
    obtain ⟨e, he, rfl⟩ := List.mem_map.mp ht
    exact ⟨e.2, (normalizeGroupIds_spec h.groupIds).1 e he⟩
  capabilities := by
    show sortedSet n.capabilities = n.capabilities
    rw [(normalizeCapabilities_spec h.capabilities).1, canonicalizeCapabilitiesForHash, sortedSet_idem]
  aliases := by
    show normalizeAliasesVec n.aliases = n.aliases
    rw [h.aliases, normalizeAliasesVec_idem]
  primaryAddress t ht := by
    obtain ⟨p, hp, rfl⟩ := Option.map_eq_some_iff.mp ht
    exact ⟨p.2, (normalizePrimary_spec henv h.primary).2 p hp⟩

theorem filed_insert {r : Registry Payload Ext} (h : Filed env r) {token : Text}
    {registration : DeviceRegistration Ext} (hstored : Stored env token registration) {t : Text} {old : DeviceRegistration Ext}
    (hlookup : (r.devices.insert token registration).lookup t = some old) : Stored env t old := by
  by_cases ht : t = token
  · subst ht
    rw [AList.lookup_insert] at hlookup
    obtain rfl := Option.some.inj hlookup
    exact hstored
  · rw [AList.lookup_insert_ne ht] at hlookup
    exact h t old hlookup

theorem filed_erase {r : Registry Payload Ext} (h : Filed env r) {token t : Text}
    {old : DeviceRegistration Ext} (hlookup : (r.devices.erase token).lookup t = some old) :
    Stored env t old := by
  by_cases ht : t = token
  · subst ht
    rw [AList.lookup_erase] at hlookup
    cases hlookup
  · rw [AList.lookup_erase_ne ht] at hlookup
    exact h t old hlookup

theorem filed_new (env : RegistryEnv Address Payload) : Filed env (Registry.new : Registry Payload Ext) := by
  intro t old hlookup
  rw [Registry.new, AList.lookup_empty] at hlookup
  cases hlookup

/-- The environment of a stored device is all that `set_apns_environment` changes. -/
theorem setApnsEnvironment_cases (r : Registry Payload Ext) (token environment : Text)
    (commit : Except Text Unit) :
    (setApnsEnvironment r token environment commit).1 = r ∨
      ∃ t old, normalizeDeviceToken token = .ok t ∧ r.devices.lookup t = some old ∧
        (setApnsEnvironment r token environment commit).1 = { r with
          devices := r.devices.insert t { old with apnsEnvironment := some environment } } := by
  unfold setApnsEnvironment
  cases htoken : normalizeDeviceToken token with
  | error e => exact .inl rfl
  | ok t =>
    cases hlookup : r.devices.lookup t with
    | none => exact .inl (by simp only [hlookup])
    | some old =>
      simp only [hlookup]
      split
      · exact .inl rfl
      · cases commit with
        | error e => exact .inl rfl
        | ok u => exact .inr ⟨t, old, rfl, hlookup, rfl⟩

theorem hydrate_devices (r : Registry Payload Ext) (token : Text) :
    (hydrateFilterCaches env r token).devices = r.devices := by
  unfold hydrateFilterCaches
  split <;> rfl

theorem tokenAllowsAlias_keeps {P : Registry Payload Ext → Prop}
    (hP : ∀ r token, P r → P (hydrateFilterCaches env r token)) {r : Registry Payload Ext} (h : P r)
    (token name : Text) : P (tokenAllowsAlias env r token name).1 := by
  unfold tokenAllowsAlias
  split
  · exact h
  · exact hP r token h

theorem passes_keeps (P : Registry Payload Ext → Prop) {α : Type}
    (check : Registry Payload Ext → α → Registry Payload Ext × Bool)
    (hcheck : ∀ r a, P r → P (check r a).1) {r : Registry Payload Ext} (h : P r) (o : Option α) :
    P (passes check r o).1 := by
  cases o with
  | none => exact h
  | some a => exact hcheck r a h

end

/-! ## What a command does -/

section
variable {Address Payload Ext : Type} [DecidableEq Payload] {env : RegistryEnv Address Payload}

/-- An unregistration changes nothing or removes the device. -/
theorem unregisterInner_cases (env : RegistryEnv Address Payload) (r : Registry Payload Ext)
    (token : Text) (walletPubkey : Option Text) (enforceBinding : Bool) (commit : Except Text Unit) :
    (∃ e, unregisterInner env r token walletPubkey enforceBinding commit = (r, .error e)) ∨
      ∃ t, normalizeDeviceToken token = .ok t ∧
        (enforceBinding = true →
          validateUnregisterBinding (r.devices.lookup t) walletPubkey = .ok ()) ∧
        commit = .ok () ∧
        ∃ global, unregisterInner env r token walletPubkey enforceBinding commit =
          ({ clearCaches (eraseRegistration env r t) t with watchOnlyGlobal := global }, .ok ()) := by
  unfold unregisterInner
  cases htoken : normalizeDeviceToken token with
  | error e => exact .inl ⟨e, rfl⟩
  | ok t =>
    cases hbinding : (if enforceBinding = true then
        validateUnregisterBinding (r.devices.lookup t) walletPubkey else .ok ()) with
    | error e => exact .inl ⟨e, by simp only [hbinding]⟩
    | ok u =>
      cases commit with
      | error e => exact .inl ⟨e, by simp only [hbinding]⟩
      | ok v =>
        refine .inr ⟨t, rfl, fun henforce => by rwa [if_pos henforce] at hbinding, rfl, ?_⟩
        simp only [hbinding]
        split
        · exact ⟨_, rfl⟩
        · exact ⟨_, rfl⟩

/-- What lets an unregistration through: a wallet that the device is bound to or any caller where it
is bound to none, else the device's key. -/
def MayUnregister (r : Registry Payload Ext) (token : Text) (walletPubkey : Option Text)
    (deviceBinding : Option DeviceKeyBinding) : Prop :=
  (∃ pubkey, normalizeGivenPubkey walletPubkey = .ok pubkey ∧
      validateUnregisterBinding (r.devices.lookup token) pubkey = .ok ()) ∨
    ∃ d ∈ deviceBinding, deviceBindingMatchesRegistration (r.devices.lookup token) d = true

theorem unregisterAuthenticated_cases (env : RegistryEnv Address Payload) (r : Registry Payload Ext)
    (token : Text) (walletPubkey : Option Text) (deviceBinding : Option DeviceKeyBinding)
    (commit retry : Except Text Unit) :
    (unregisterAuthenticated env r token walletPubkey deviceBinding commit retry).1 = r ∨
      ∃ t, normalizeDeviceToken token = .ok t ∧ MayUnregister r t walletPubkey deviceBinding ∧
        ∃ global, (unregisterAuthenticated env r token walletPubkey deviceBinding commit retry).1 =
          { clearCaches (eraseRegistration env r t) t with watchOnlyGlobal := global } := by
  unfold unregisterAuthenticated
  cases htoken : normalizeDeviceToken token with
  | error e => exact .inl rfl
  | ok t =>
    have hagain := normalizeDeviceToken_idem htoken
    have hfallback (h : deviceBinding.any (deviceBindingMatchesRegistration (r.devices.lookup t)) =
        true) : MayUnregister r t walletPubkey deviceBinding := by
      cases deviceBinding with
      | none => cases h
      | some d => exact .inr ⟨d, rfl, h⟩
    cases hpubkey : normalizeGivenPubkey walletPubkey with
    | error e => exact .inl rfl
    | ok pubkey =>
      cases pubkey with
      | none =>
        rcases unregisterInner_cases env r t none
          (!deviceBinding.any (deviceBindingMatchesRegistration (r.devices.lookup t))) commit with
          ⟨e, he⟩ | ⟨t', ht', hbinding, -, global, hout⟩
        · exact .inl (by simp only [he])
        · obtain rfl := Except.ok.inj (hagain.symm.trans ht')
          refine .inr ⟨t, rfl, ?_, global, by simp only [hout]⟩
          by_cases hany : deviceBinding.any
              (deviceBindingMatchesRegistration (r.devices.lookup t)) = true
          · exact hfallback hany
          · exact .inl ⟨none, hpubkey, hbinding (by simpa using hany)⟩
      | some pubkey =>
        rcases unregisterInner_cases env r t (some pubkey) true commit with
          ⟨e, he⟩ | ⟨t', ht', hbinding, -, global, hout⟩
        · simp only [he]
          split
          · next hallowed =>
            rcases unregisterInner_cases env r t none false retry with
              ⟨e', he'⟩ | ⟨t', ht', -, -, global, hout⟩
            · exact .inl (by rw [he'])
            · obtain rfl := Except.ok.inj (hagain.symm.trans ht')
              exact .inr ⟨t, rfl, hfallback (Bool.and_eq_true_iff.mp hallowed).1, global,
                by rw [hout]⟩
          · exact .inl rfl
        · obtain rfl := Except.ok.inj (hagain.symm.trans ht')
          exact .inr ⟨t, rfl, .inl ⟨some pubkey, hpubkey, hbinding rfl⟩, global,
            by simp only [hout]⟩

theorem devices_erase (r : Registry Payload Ext) (token : Text) :
    (eraseRegistration env r token).devices = r.devices.erase token := by
  unfold eraseRegistration
  split <;> rfl

theorem tokenPrimaryMatches_keeps {P : Registry Payload Ext → Prop}
    (hP : ∀ r token, P r → P (hydrateFilterCaches env r token)) {r : Registry Payload Ext} (h : P r)
    (token : Text) (receiver : Payload) : P (tokenPrimaryMatches env r token receiver).1 := by
  unfold tokenPrimaryMatches
  split
  · exact h
  · exact hP r token h

/-- A filter does no more to the registry than to fill the caches of stored devices. -/
theorem filterTokens_keeps {P : Registry Payload Ext → Prop}
    (hP : ∀ r token, P r → P (hydrateFilterCaches env r token)) {r : Registry Payload Ext} (h : P r)
    (name : Option Text) (receiver : Option Payload) (tokens : List Text) :
    P (filterTokens env name receiver r tokens).1 := by
  induction tokens generalizing r with
  | nil => exact h
  | cons token rest ih =>
    have hname := passes_keeps P (fun r => tokenAllowsAlias env r token)
      (fun r a h => tokenAllowsAlias_keeps hP h token a) h name
    unfold filterTokens
    dsimp only
    split
    · exact ih (passes_keeps P (fun r => tokenPrimaryMatches env r token)
        (fun r a h => tokenPrimaryMatches_keeps hP h token a) hname receiver)
    · exact ih hname

theorem matchingTokens_devices (r : Registry Payload Ext) (address : Payload) (name : Option Text)
    (receiver : Option Payload) (commit : Except Text Unit) :
    (matchingTokens env r address name receiver commit).1.devices = r.devices := by
  unfold matchingTokens
  dsimp only
  split
  · cases commit <;> rfl
  · exact @filterTokens_keeps _ _ _ _ env (fun r' => r'.devices = r.devices)
      (fun r' token h' => (hydrate_devices r' token).trans h') r rfl name receiver _

end

section
variable {Address Payload Ext : Type} [DecidableEq Payload] [DecidableEq Ext]
  {env : RegistryEnv Address Payload}

/-- What is compared before a request is found to change nothing. -/
structure Unchanged (env : RegistryEnv Address Payload) (old new : DeviceRegistration Ext) : Prop where
  watchedAddresses : old.watchedAddresses = new.watchedAddresses
  watchedGroupIds : old.watchedGroupIds = new.watchedGroupIds
  capabilities : old.capabilities = new.capabilities
  aliases : normalizeAliasesVec old.aliases = normalizeAliasesVec new.aliases
  primaryAddress : normalizePrimaryAddress env.toAddressEnv old.primaryAddress = new.primaryAddress
  walletPubkey : old.walletPubkey = new.walletPubkey
  walletAddress : old.walletAddress = new.walletAddress

omit [DecidableEq Payload] in
theorem unchanged_spec {old new : DeviceRegistration Ext} (h : unchanged env old new = true) :
    Unchanged env old new := by
  simp only [unchanged, Bool.and_eq_true, beq_iff_eq] at h
  obtain ⟨⟨⟨⟨⟨⟨⟨⟨⟨⟨⟨⟨⟨⟨⟨⟨⟨haddresses, hgroupIds⟩, hcapabilities⟩, -⟩, haliases⟩, hprimary⟩, hpubkey⟩,
    haddress⟩, -⟩, -⟩, -⟩, -⟩, -⟩, -⟩, -⟩, -⟩, -⟩, -⟩ := h
  exact ⟨haddresses, hgroupIds, hcapabilities, haliases, hprimary, hpubkey, haddress⟩

omit [DecidableEq Payload] [DecidableEq Ext] in
/-- A stored primary address is already normal. -/
theorem Stored.primary_normal (henv : LawfulAddresses env.toAddressEnv) {token : Text}
    {old : DeviceRegistration Ext} (h : Stored env token old) :
    normalizePrimaryAddress env.toAddressEnv old.primaryAddress = old.primaryAddress := by
  cases hold : old.primaryAddress with
  | none => rfl
  | some t =>
    obtain ⟨payload, a, hparse, htext, -⟩ := h.primaryAddress t hold
    exact normalizePrimaryAddress_text henv hparse htext

/-- The caches as a request leaves them. -/
def cached (env : RegistryEnv Address Payload) (n : Normalized Payload) (r : Registry Payload Ext) :
    Registry Payload Ext :=
  updateCaches env r n.token n.aliases (n.primary.map Prod.fst) n.capabilities

/-- A registration or an update changes nothing, or finds what it would store and fills the caches
alone, or is written. -/
theorem save_cases (env : RegistryEnv Address Payload) (r : Registry Payload Ext)
    (platform : Option Text) (args : RegistrationArgs Ext) (now : ℕ) (commit : Except Text Unit) :
    (∃ e, (prepare env r platform args now = .error e ∨ commit = .error e) ∧
        save env r platform args now commit = (r, .error e)) ∨
      ∃ n registration, prepare env r platform args now = .ok (n, registration) ∧
        ((∃ old, r.devices.lookup n.token = some old ∧ unchanged env old registration = true ∧
            save env r platform args now commit = (cached env n r, .ok ())) ∨
          (commit = .ok () ∧ ∃ global, save env r platform args now commit =
            ({ cached env n (writeRegistration env r n (r.devices.lookup n.token) registration) with
                watchOnlyGlobal := global }, .ok ()))) := by
  cases hprepare : prepare env r platform args now with
  | error e => exact .inl ⟨e, .inl rfl, by rw [save, hprepare]⟩
  | ok p =>
    obtain ⟨n, registration⟩ := p
    by_cases hkeep : (r.devices.lookup n.token).any fun old => unchanged env old registration &&
        !shouldRefreshLastSeen env n.token old.lastSeen now
    · obtain ⟨old, hold, hsame⟩ : ∃ old, r.devices.lookup n.token = some old ∧
          (unchanged env old registration && !shouldRefreshLastSeen env n.token old.lastSeen now) =
            true := by
        cases hlookup : r.devices.lookup n.token with
        | none => simp [hlookup] at hkeep
        | some old => exact ⟨old, rfl, by simpa [hlookup] using hkeep⟩
      refine .inr ⟨n, registration, rfl, .inl ⟨old, hold, (Bool.and_eq_true_iff.mp hsame).1, ?_⟩⟩
      simp only [save, hprepare, if_pos hkeep, cached]
    · cases commit with
      | error e =>
        refine .inl ⟨e, .inr rfl, ?_⟩
        simp only [save, hprepare, if_neg hkeep]
      | ok u =>
        refine .inr ⟨n, registration, rfl, .inr ⟨rfl, ?_⟩⟩
        simp only [save, hprepare, if_neg hkeep]
        split
        · exact ⟨_, rfl⟩
        · exact ⟨_, rfl⟩

/-! ## The registrations of a run -/

theorem filed_save (henv : LawfulAddresses env.toAddressEnv) {r : Registry Payload Ext}
    (h : Filed env r) (platform : Option Text) (args : RegistrationArgs Ext) (now : ℕ)
    (commit : Except Text Unit) : Filed env (save env r platform args now commit).1 := by
  rcases save_cases env r platform args now commit with
    ⟨e, -, he⟩ | ⟨n, registration, hprepare, ⟨old, -, -, hout⟩ | ⟨-, global, hout⟩⟩
  · rwa [he]
  · rw [hout]
    exact h
  · rw [hout]
    intro t old hlookup
    obtain ⟨hn, wallet, device, -, -, rfl⟩ := prepare_spec hprepare
    exact filed_insert h (stored_build henv (normalizeArgs_spec hn) _ _ _ _) hlookup

theorem filed_step (henv : LawfulAddresses env.toAddressEnv) {r : Registry Payload Ext}
    (h : Filed env r) (c : Command Payload Ext) : Filed env (step env r c) := by
  have herased (t : Text) (global : List Payload) :
      Filed env { clearCaches (eraseRegistration env r t) t with watchOnlyGlobal := global } := by
    intro u old hlookup
    have hdevices : (clearCaches (eraseRegistration env r t) t).devices = r.devices.erase t :=
      devices_erase r t
    exact filed_erase h (hdevices ▸ hlookup)
  cases c with
  | register platform args now commit => exact filed_save henv h _ _ _ _
  | update args now commit => exact filed_save henv h _ _ _ _
  | unregister token commit =>
    rcases unregisterInner_cases env r token none false commit with
      ⟨e, he⟩ | ⟨t, -, -, -, global, hout⟩
    · rwa [step, he]
    · rw [step, hout]
      exact herased t global
  | unregisterAuthenticated token walletPubkey deviceBinding commit retry =>
    rcases unregisterAuthenticated_cases env r token walletPubkey deviceBinding commit retry with
      hsame | ⟨t, -, -, global, hout⟩
    · rwa [step, hsame]
    · rw [step, hout]
      exact herased t global
  | matchTokens address name receiver commit =>
    intro t old hlookup
    rw [step, matchingTokens_devices] at hlookup
    exact h t old hlookup
  | matchGroupTokens groupId => exact h
  | matchGroupControlTokens sender recipient => exact h
  | matchWatchOnlyTokens address senders => exact h
  | setApnsEnvironment token environment commit =>
    intro t old hlookup
    rcases setApnsEnvironment_cases r token environment commit with
      hsame | ⟨u, o, -, hu, hout⟩
    · rw [step, hsame] at hlookup
      exact h t old hlookup
    · rw [step, hout] at hlookup
      have hstored : Stored env u { o with apnsEnvironment := some environment } :=
        { h u o hu with }
      exact filed_insert h hstored hlookup

theorem filed_run (henv : LawfulAddresses env.toAddressEnv) {r : Registry Payload Ext}
    (h : Filed env r) (commands : List (Command Payload Ext)) : Filed env (run env r commands) := by
  induction commands generalizing r with
  | nil => exact h
  | cons c commands ih => exact ih (filed_step henv h c)

end

end KaChatIndexer.PushStored
