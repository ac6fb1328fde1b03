import KaChatIndexer.PushCoverage

/-!
# Lookups of the push registry

The rows and the caches beside the registrations that they are made from, over any run of commands.
-/
namespace KaChatIndexer.PushLookups
open ByteStrings KaText PushFields PushAuth PushRegistry PushStored PushCoverage Fallible

/-! ## Rows -/

section
variable {α : Type} [DecidableEq α] {decode : Text → Option α} {rows : List (α × Text)}
  {token : Text} {old : List Text} {new : List (Text × α)}

/-- The rows of other devices stay. -/
theorem mem_reindex_other {a : α} {t : Text} (ht : t ≠ token) :
    (a, t) ∈ reindex decode rows token old new ↔ (a, t) ∈ rows := by
  have hother (keys : List α) : (a, t) ∉ keys.map fun key => (key, token) := by
    rintro hmem
    obtain ⟨key, -, hkey⟩ := List.mem_map.mp hmem
    exact ht (Prod.mk.inj hkey).2.symm
  unfold reindex
  split
  · rfl
  · rw [mem_insertRows, mem_removeRows]
    simp only [hother, or_false, not_false_eq_true, and_true]

omit [DecidableEq α] in
theorem mem_tokenRows {keys : List α} {a : α} :
    (a, token) ∈ keys.map (fun key => (key, token)) ↔ a ∈ keys := by
  simp

theorem mem_reindex_self {a : α} (hchanged : old ≠ new.map Prod.fst) :
    (a, token) ∈ reindex decode rows token old new ↔
      ((a, token) ∈ rows ∧ ¬∃ x ∈ old, x ∉ new.map Prod.fst ∧ decode x = some a) ∨
        ∃ e ∈ new, e.1 ∉ old ∧ e.2 = a := by
  rw [reindex, if_neg hchanged]
  dsimp only
  rw [mem_insertRows, mem_removeRows, mem_tokenRows, mem_tokenRows]
  simp only [List.mem_filterMap, List.mem_filter, List.mem_map, decide_eq_true_eq, and_assoc]

/-- No key is dropped with one name while another name of it stays, unless a third name comes. -/
def Keeps (decode : Text → Option α) (old : List Text) (new : List (Text × α)) : Prop :=
  ∀ e ∈ new, e.1 ∈ old → (∃ x ∈ old, x ∉ new.map Prod.fst ∧ decode x = some e.2) →
    ∃ e' ∈ new, e'.1 ∉ old ∧ e'.2 = e.2

/-- A device's rows are those of its new list exactly when no key is lost on the way. -/
theorem reindex_exact_iff (hrows : ∀ a, (a, token) ∈ rows ↔ ∃ x ∈ old, decode x = some a)
    (hnew : ∀ e ∈ new, decode e.1 = some e.2) :
    (∀ a, (a, token) ∈ reindex decode rows token old new ↔ ∃ e ∈ new, e.2 = a) ↔
      Keeps decode old new := by
  by_cases hsame : old = new.map Prod.fst
  · have hkeeps : Keeps decode old new := by
      rintro e he - ⟨x, hx, hdropped, -⟩
      exact absurd (hsame ▸ hx) hdropped
    refine iff_of_true (fun a => ?_) hkeeps
    rw [reindex, if_pos hsame, hrows]
    constructor
    · rintro ⟨x, hx, ha⟩
      rw [hsame] at hx
      obtain ⟨e, he, rfl⟩ := List.mem_map.mp hx
      exact ⟨e, he, Option.some.inj ((hnew e he).symm.trans ha)⟩
    · rintro ⟨e, he, rfl⟩
      exact ⟨e.1, hsame ▸ List.mem_map_of_mem he, hnew e he⟩
  · constructor
    · rintro hexact e he hkept hdropped
      rcases (mem_reindex_self hsame).mp ((hexact e.2).mpr ⟨e, he, rfl⟩) with ⟨-, hnone⟩ | hadded
      · exact absurd hdropped hnone
      · exact hadded
    · intro hkeeps a
      rw [mem_reindex_self hsame, hrows]
      constructor
      · rintro (⟨⟨x, hx, ha⟩, hnone⟩ | ⟨e, he, -, rfl⟩)
        · have hkept : x ∈ new.map Prod.fst := by
            by_contra hdropped
            exact hnone ⟨x, hx, hdropped, ha⟩
          obtain ⟨e, he, rfl⟩ := List.mem_map.mp hkept
          exact ⟨e, he, Option.some.inj ((hnew e he).symm.trans ha)⟩
        · exact ⟨e, he, rfl⟩
      · rintro ⟨e, he, rfl⟩
        by_cases hkept : e.1 ∈ old
        · by_cases hdropped : ∃ x ∈ old, x ∉ new.map Prod.fst ∧ decode x = some e.2
          · exact .inr (hkeeps e he hkept hdropped)
          · exact .inl ⟨⟨e.1, hkept, hnew e he⟩, hdropped⟩
        · exact .inr ⟨e, he, hkept, rfl⟩

omit [DecidableEq α] in
/-- Where a key has one name only, none is lost. -/
theorem keeps_of_injective (hold : ∀ x ∈ old, ∀ e ∈ new, decode x = some e.2 → x = e.1) :
    Keeps decode old new := by
  rintro e he - ⟨x, hx, hdropped, ha⟩
  exact absurd (hold x hx e he ha ▸ List.mem_map_of_mem he) hdropped

end

/-! ## What the lookups should find -/

section
variable {Address Payload Ext : Type}

/-- The stored registration watches the address. -/
def WatchesAddress (env : RegistryEnv Address Payload) (r : Registry Payload Ext) (a : Payload)
    (token : Text) : Prop :=
  ∃ old, r.devices.lookup token = some old ∧ ∃ x ∈ old.watchedAddresses, payloadOf env x = some a

def WatchesGroup (env : RegistryEnv Address Payload) (r : Registry Payload Ext) (g : Bytes)
    (token : Text) : Prop :=
  ∃ old, r.devices.lookup token = some old ∧ ∃ x ∈ old.watchedGroupIds, groupIdOf env x = some g

def HasPrimary (env : RegistryEnv Address Payload) (r : Registry Payload Ext) (a : Payload)
    (token : Text) : Prop :=
  ∃ old, r.devices.lookup token = some old ∧ old.primaryAddress.bind (payloadOf env) = some a

/-- The cached entries of a token are those of its stored registration. -/
structure CachedAs (env : RegistryEnv Address Payload) (r : Registry Payload Ext) (token : Text) :
    Prop where
  aliases : ∀ aliases, r.aliasCache.lookup token = some aliases →
    ∃ old, r.devices.lookup token = some old ∧ aliases = aliasSet old.aliases
  primary : ∀ primary, r.primaryCache.lookup token = some primary →
    ∃ old, r.devices.lookup token = some old ∧ primary = old.primaryAddress.bind (payloadOf env)
  capabilities : ∀ capabilities, r.capabilityCache.lookup token = some capabilities →
    ∃ old, r.devices.lookup token = some old ∧ capabilities = sortedSet old.capabilities

/-- Every lookup finds the devices whose registrations say so. -/
structure Correct [DecidableEq Payload] (env : RegistryEnv Address Payload) (r : Registry Payload Ext) :
    Prop where
  addresses : ∀ a token, token ∈ tokensForAddress r a ↔ WatchesAddress env r a token
  groups : ∀ g, ∃ tokens, tokensForGroup r g = .ok tokens ∧
    ∀ token, token ∈ tokens ↔ WatchesGroup env r g token
  primaries : ∀ a, ∃ tokens, tokensForPrimaryAddress r a = .ok tokens ∧
    ∀ token, token ∈ tokens ↔ HasPrimary env r a token
  caches : ∀ token, CachedAs env r token

/-! ## The invariant -/

/-- A device that has rows has a token that can be read off their keys. -/
def Readable (token : Text) (addresses groupIds : List Text) (primary : Option Text) : Prop :=
  (tokenFromIndexKey token).isSome ∨ (addresses = [] ∧ groupIds = [] ∧ primary = none)

/-- The rows are those of the registrations. -/
structure Indexed (env : RegistryEnv Address Payload) (r : Registry Payload Ext) : Prop where
  filed : Filed env r
  readable : ∀ token old, r.devices.lookup token = some old →
    Readable token old.watchedAddresses old.watchedGroupIds old.primaryAddress
  watched : ∀ a token, (a, token) ∈ r.watched ↔ WatchesAddress env r a token
  watchedGroups : ∀ g token, (g, token) ∈ r.watchedGroups ↔ WatchesGroup env r g token
  primaryAddresses : ∀ a token, (a, token) ∈ r.primaryAddresses ↔ HasPrimary env r a token
  caches : ∀ token, CachedAs env r token

theorem tokenFromIndexKey_eq {token t : Text} (h : tokenFromIndexKey token = some t) : t = token := by
  unfold tokenFromIndexKey at h
  split at h
  · cases h
  · exact (Option.some.inj h).symm

theorem tokenFromIndexKey_self {token : Text} (h : (tokenFromIndexKey token).isSome) :
    tokenFromIndexKey token = some token := by
  obtain ⟨t, ht⟩ := Option.isSome_iff_exists.mp h
  rw [ht, tokenFromIndexKey_eq ht]

theorem mem_rowTokens {α : Type} [DecidableEq α] {rows : List (α × Text)} {key : α} {token : Text} :
    token ∈ rowTokens rows key ↔ (key, token) ∈ rows := by
  simp [rowTokens]

/-- All tokens come out, or the lookup fails. -/
theorem decodeAll_ok {e : Text} {l : List Text} (h : ∀ t ∈ l, (tokenFromIndexKey t).isSome) :
    decodeAll e l = .ok l := by
  induction l with
  | nil => rfl
  | cons t l ih =>
    have hhead := tokenFromIndexKey_self (h t List.mem_cons_self)
    have htail := ih fun u hu => h u (List.mem_cons_of_mem t hu)
    rw [decodeAll, hhead, htail]
    rfl

theorem readable_of_decodeAll {e : Text} {l tokens : List Text} (h : decodeAll e l = .ok tokens) :
    ∀ t ∈ tokens, (tokenFromIndexKey t).isSome := by
  induction l generalizing tokens with
  | nil =>
    obtain rfl := Except.ok.inj h
    simp
  | cons u l ih =>
    obtain ⟨token, htoken, h⟩ := bind_ok h
    obtain ⟨rest, hrest, h⟩ := bind_ok h
    obtain rfl := Except.ok.inj h
    rintro t (_ | ⟨_, ht⟩)
    · have hkey := okOr_ok htoken
      rw [tokenFromIndexKey_eq hkey, hkey]
      rfl
    · exact ih hrest t ht

variable {env : RegistryEnv Address Payload} {r : Registry Payload Ext}

theorem Indexed.token_of_address (h : Indexed env r) {a : Payload} {token : Text}
    (hwatches : WatchesAddress env r a token) : (tokenFromIndexKey token).isSome := by
  obtain ⟨old, hold, x, hx, -⟩ := hwatches
  rcases h.readable token old hold with htoken | ⟨hnone, -, -⟩
  · exact htoken
  · rw [hnone] at hx
    cases hx

theorem Indexed.token_of_group (h : Indexed env r) {g : Bytes} {token : Text}
    (hwatches : WatchesGroup env r g token) : (tokenFromIndexKey token).isSome := by
  obtain ⟨old, hold, x, hx, -⟩ := hwatches
  rcases h.readable token old hold with htoken | ⟨-, hnone, -⟩
  · exact htoken
  · rw [hnone] at hx
    cases hx

theorem Indexed.token_of_primary (h : Indexed env r) {a : Payload} {token : Text}
    (hprimary : HasPrimary env r a token) : (tokenFromIndexKey token).isSome := by
  obtain ⟨old, hold, hp⟩ := hprimary
  rcases h.readable token old hold with htoken | ⟨-, -, hnone⟩
  · exact htoken
  · rw [hnone] at hp
    cases hp

theorem correct_of_indexed [DecidableEq Payload] (h : Indexed env r) : Correct env r where
  addresses a token := by
    rw [tokensForAddress, List.mem_filterMap]
    constructor
    · rintro ⟨u, hu, htoken⟩
      obtain rfl := tokenFromIndexKey_eq htoken
      exact (h.watched a _).mp (mem_rowTokens.mp hu)
    · intro hwatches
      exact ⟨token, mem_rowTokens.mpr ((h.watched a token).mpr hwatches),
        tokenFromIndexKey_self (h.token_of_address hwatches)⟩
  groups g := by
    refine ⟨rowTokens r.watchedGroups g, decodeAll_ok fun t ht => ?_, fun token => ?_⟩
    · exact h.token_of_group ((h.watchedGroups g t).mp (mem_rowTokens.mp ht))
    · rw [mem_rowTokens, h.watchedGroups]
  primaries a := by
    refine ⟨rowTokens r.primaryAddresses a, decodeAll_ok fun t ht => ?_, fun token => ?_⟩
    · exact h.token_of_primary ((h.primaryAddresses a t).mp (mem_rowTokens.mp ht))
    · rw [mem_rowTokens, h.primaryAddresses]
  caches := h.caches

/-! ## Caches -/

theorem CachedAs.of_devices {r' : Registry Payload Ext} {token : Text} (h : CachedAs env r token)
    (hdevices : ∀ old, r.devices.lookup token = some old → ∃ old', r'.devices.lookup token = some old' ∧
      aliasSet old'.aliases = aliasSet old.aliases ∧ old'.primaryAddress = old.primaryAddress ∧
      old'.capabilities = old.capabilities)
    (haliases : r'.aliasCache.lookup token = r.aliasCache.lookup token)
    (hprimary : r'.primaryCache.lookup token = r.primaryCache.lookup token)
    (hcapabilities : r'.capabilityCache.lookup token = r.capabilityCache.lookup token) :
    CachedAs env r' token where
  aliases aliases hlookup := by
    obtain ⟨old, hold, rfl⟩ := h.aliases aliases (haliases ▸ hlookup)
    obtain ⟨old', hold', hsame, -, -⟩ := hdevices old hold
    exact ⟨old', hold', hsame.symm⟩
  primary primary hlookup := by
    obtain ⟨old, hold, rfl⟩ := h.primary primary (hprimary ▸ hlookup)
    obtain ⟨old', hold', -, hsame, -⟩ := hdevices old hold
    exact ⟨old', hold', by rw [hsame]⟩
  capabilities capabilities hlookup := by
    obtain ⟨old, hold, rfl⟩ := h.capabilities capabilities (hcapabilities ▸ hlookup)
    obtain ⟨old', hold', -, -, hsame⟩ := hdevices old hold
    exact ⟨old', hold', by rw [hsame]⟩

/-- What is cached of a stored device, where the others are cached as they are stored. -/
theorem cached_update {token : Text} {old : DeviceRegistration Ext} {aliases capabilities : List Text}
    {primary : Option Text} (hold : r.devices.lookup token = some old)
    (haliases : aliasSet aliases = aliasSet old.aliases)
    (hprimary : primary.bind (payloadOf env) = old.primaryAddress.bind (payloadOf env))
    (hcapabilities : capabilities = old.capabilities)
    (hothers : ∀ t, t ≠ token → CachedAs env r t) :
    ∀ t, CachedAs env (updateCaches env r token aliases primary capabilities) t := by
  intro t
  by_cases ht : t = token
  · subst ht
    refine ⟨fun l hlookup => ?_, fun p hlookup => ?_, fun l hlookup => ?_⟩
    · rw [updateCaches, AList.lookup_insert] at hlookup
      exact ⟨old, hold, by rw [← Option.some.inj hlookup, haliases]⟩
    · rw [updateCaches, AList.lookup_insert] at hlookup
      exact ⟨old, hold, by rw [← Option.some.inj hlookup, hprimary]⟩
    · rw [updateCaches, AList.lookup_insert] at hlookup
      exact ⟨old, hold, by rw [← Option.some.inj hlookup, hcapabilities]⟩
  · exact (hothers t ht).of_devices (fun o ho => ⟨o, ho, rfl, rfl, rfl⟩) (AList.lookup_insert_ne ht)
      (AList.lookup_insert_ne ht) (AList.lookup_insert_ne ht)

theorem Indexed.hydrate (h : Indexed env r) (token : Text) :
    Indexed env (hydrateFilterCaches env r token) := by
  unfold hydrateFilterCaches
  split
  · exact h
  · next old hold =>
    exact { h with caches := cached_update hold rfl rfl rfl fun t _ => h.caches t }

/-! ## Commands -/

/-- A registration or an update that is written leaves the device's rows readable, and drops no
address while another of its payload stays. -/
def HarmlessSave (env : RegistryEnv Address Payload) (r : Registry Payload Ext)
    (platform : Option Text) (args : RegistrationArgs Ext) (now : ℕ) (commit : Except Text Unit) :
    Prop :=
  match prepare env r platform args now, commit with
  | .ok (n, _), .ok () =>
      Readable n.token (n.addresses.map Prod.fst) (n.groupIds.map Prod.fst) (n.primary.map Prod.fst) ∧
        Keeps (payloadOf env) (((r.devices.lookup n.token).map (·.watchedAddresses)).getD [])
          n.addresses
  | _, _ => True

def Harmless (env : RegistryEnv Address Payload) (r : Registry Payload Ext) :
    Command Payload Ext → Prop
  | .register platform args now commit => HarmlessSave env r (some platform) args now commit
  | .update args now commit => HarmlessSave env r none args now commit
  | .unregister _ _ | .unregisterAuthenticated _ _ _ _ _ | .matchTokens _ _ _ _ | .matchGroupTokens _
  | .matchGroupControlTokens _ _ | .matchWatchOnlyTokens _ _ | .setApnsEnvironment _ _ _ => True

end

/-! ## What is written -/

section
variable {Address Payload Ext : Type} {env : RegistryEnv Address Payload} {r : Registry Payload Ext}

/-- The addresses, group ids and primary address of a request under their keys. -/
structure Keyed (env : RegistryEnv Address Payload) (n : Normalized Payload) : Prop where
  addresses : ∀ e ∈ n.addresses, payloadOf env e.1 = some e.2
  groupIds : ∀ e ∈ n.groupIds, groupIdOf env e.1 = some e.2
  primary : ∀ e ∈ n.primary, payloadOf env e.1 = some e.2

theorem payloadOf_isAddress {t : Text} {payload : Payload} (h : IsAddress env.toAddressEnv t payload) :
    payloadOf env t = some payload := by
  rw [payloadOf, h.payload_eq]
  rfl

theorem groupIdOf_isGroupId {t : Text} {b : Bytes} (h : IsGroupId env.toAddressEnv t b) :
    groupIdOf env t = some b := by
  rw [groupIdOf, h.decodes]
  rfl

theorem keyed_of_normalized (henv : LawfulAddresses env.toAddressEnv) {args : RegistrationArgs Ext}
    {n : Normalized Payload} (h : NormalizedFrom env args n) : Keyed env n where
  addresses e he := payloadOf_isAddress ((normalizeAddresses_spec henv h.addresses).1 e he)
  groupIds e he := groupIdOf_isGroupId ((normalizeGroupIds_spec h.groupIds).1 e he)
  primary e he := payloadOf_isAddress ((normalizePrimary_spec henv h.primary).2 e he)

/-- A group id has one spelling, so no group's row is lost. -/
theorem keeps_groups (hfiled : Filed env r) {args : RegistrationArgs Ext} {n : Normalized Payload}
    (h : NormalizedFrom env args n) :
    Keeps (groupIdOf env) (((r.devices.lookup n.token).map (·.watchedGroupIds)).getD [])
      n.groupIds := by
  apply keeps_of_injective
  intro x hx e he hkey
  cases hold : r.devices.lookup n.token with
  | none =>
    rw [hold] at hx
    cases hx
  | some old =>
    rw [hold] at hx
    obtain ⟨b, hb⟩ := (hfiled n.token old hold).groupIds x hx
    obtain rfl : b = e.2 := Option.some.inj ((groupIdOf_isGroupId hb).symm.trans hkey)
    exact hb.unique ((normalizeGroupIds_spec h.groupIds).1 e he)

/-- The rows of the device that a request writes, before it does. -/
theorem rows_before {α : Type} {token : Text} {names : DeviceRegistration Ext → List Text}
    {decode : Text → Option α} {rows : List (α × Text)}
    (hrows : ∀ a, (a, token) ∈ rows ↔
      ∃ old, r.devices.lookup token = some old ∧ ∃ x ∈ names old, decode x = some a) (a : α) :
    (a, token) ∈ rows ↔
      ∃ x ∈ ((r.devices.lookup token).map names).getD [], decode x = some a := by
  rw [hrows]
  cases r.devices.lookup token with
  | none => simp
  | some old => simp

end

section
variable {Address Payload Ext : Type} [DecidableEq Payload] {env : RegistryEnv Address Payload}
  {r : Registry Payload Ext}

theorem mem_reindexPrimary {token : Text} {existing : Option (DeviceRegistration Ext)}
    {primary : Option (Text × Payload)} {rows : List (Payload × Text)}
    (hnormal : ∀ old ∈ existing,
      normalizePrimaryAddress env.toAddressEnv old.primaryAddress = old.primaryAddress)
    (hrows : ∀ a, (a, token) ∈ rows ↔
      ∃ old, existing = some old ∧ old.primaryAddress.bind (payloadOf env) = some a)
    (hprimary : ∀ e ∈ primary, payloadOf env e.1 = some e.2) (a : Payload) :
    (a, token) ∈ reindexPrimary env rows token existing primary ↔ ∃ e ∈ primary, e.2 = a := by
  have hadded : (a, token) ∈ primary.toList.map (fun p => (p.2, token)) ↔ ∃ e ∈ primary, e.2 = a := by
    cases primary <;> simp [eq_comm]
  cases existing with
  | none =>
    rw [reindexPrimary, mem_insertRows, hadded, hrows]
    simp
  | some old =>
    unfold reindexPrimary
    dsimp only
    split
    · next hsame =>
      rw [hnormal old rfl] at hsame
      rw [hrows]
      constructor
      · rintro ⟨o, ho, hkey⟩
        obtain rfl := Option.some.inj ho
        rw [hsame] at hkey
        cases hp : primary with
        | none => simp [hp] at hkey
        | some e =>
          rw [hp, Option.map_some, Option.bind_some, hprimary e hp] at hkey
          exact ⟨e, rfl, Option.some.inj hkey⟩
      · rintro ⟨e, he, rfl⟩
        refine ⟨old, rfl, ?_⟩
        rw [hsame, he, Option.map_some, Option.bind_some, hprimary e he]
    · rw [mem_insertRows, mem_removeRows, hadded, hrows]
      constructor
      · rintro (⟨⟨o, ho, hkey⟩, hnot⟩ | hnew)
        · obtain rfl := Option.some.inj ho
          exact absurd (by simp [hkey]) hnot
        · exact hnew
      · exact .inr

theorem mem_reindexPrimary_other {token t : Text} (ht : t ≠ token)
    {existing : Option (DeviceRegistration Ext)} {primary : Option (Text × Payload)}
    {rows : List (Payload × Text)} (a : Payload) :
    (a, t) ∈ reindexPrimary env rows token existing primary ↔ (a, t) ∈ rows := by
  have hother (o : Option Payload) : (a, t) ∉ o.toList.map fun p => (p, token) := by
    cases o <;> simp [ht]
  have hother' : (a, t) ∉ primary.toList.map fun p => (p.2, token) := by
    cases primary <;> simp [ht]
  cases existing with
  | none =>
    rw [reindexPrimary, mem_insertRows]
    simp only [hother', or_false]
  | some old =>
    unfold reindexPrimary
    dsimp only
    split
    · rfl
    · rw [mem_insertRows, mem_removeRows]
      simp only [hother, hother', or_false, not_false_eq_true, and_true]

end

section
variable {Address Payload Ext : Type} [DecidableEq Payload] [DecidableEq Ext]
  {env : RegistryEnv Address Payload} {r : Registry Payload Ext}

omit [DecidableEq Payload] [DecidableEq Ext] in
/-- A registration that is stored is looked up, and the others are as before. -/
theorem exists_insert_iff {token : Text} {registration : DeviceRegistration Ext} {t : Text}
    {P : DeviceRegistration Ext → Prop} :
    (∃ old, (r.devices.insert token registration).lookup t = some old ∧ P old) ↔
      if t = token then P registration else ∃ old, r.devices.lookup t = some old ∧ P old := by
  by_cases ht : t = token
  · subst ht
    rw [if_pos rfl, AList.lookup_insert]
    simp
  · rw [if_neg ht, AList.lookup_insert_ne ht]

omit [DecidableEq Payload] [DecidableEq Ext] in
theorem exists_named {α : Type} {decode : Text → Option α} {names : List Text} {new : List (Text × α)}
    (hnames : names = new.map Prod.fst) (hnew : ∀ e ∈ new, decode e.1 = some e.2) (a : α) :
    (∃ x ∈ names, decode x = some a) ↔ ∃ e ∈ new, e.2 = a := by
  rw [hnames]
  constructor
  · rintro ⟨x, hx, ha⟩
    obtain ⟨e, he, rfl⟩ := List.mem_map.mp hx
    exact ⟨e, he, Option.some.inj ((hnew e he).symm.trans ha)⟩
  · rintro ⟨e, he, rfl⟩
    exact ⟨e.1, List.mem_map_of_mem he, hnew e he⟩

omit [DecidableEq Payload] [DecidableEq Ext] in
/-- Rows kept by names, after a write, are those of the registrations exactly when no key of the
device is lost. -/
theorem rows_written {α : Type} [DecidableEq α] {decode : Text → Option α} {rows : List (α × Text)}
    {names : DeviceRegistration Ext → List Text} {token : Text} {new : List (Text × α)}
    (hrows : ∀ a t, (a, t) ∈ rows ↔
      ∃ old, r.devices.lookup t = some old ∧ ∃ x ∈ names old, decode x = some a)
    {registration : DeviceRegistration Ext} (hnames : names registration = new.map Prod.fst)
    (hnew : ∀ e ∈ new, decode e.1 = some e.2) :
    (∀ a t, (a, t) ∈ reindex decode rows token (((r.devices.lookup token).map names).getD []) new ↔
      ∃ old, (r.devices.insert token registration).lookup t = some old ∧
        ∃ x ∈ names old, decode x = some a) ↔
      Keeps decode (((r.devices.lookup token).map names).getD []) new := by
  rw [← reindex_exact_iff (rows_before (hrows · token)) hnew]
  simp only [exists_insert_iff]
  constructor
  · intro hall a
    rw [hall a token, if_pos rfl, exists_named hnames hnew]
  · intro hself a t
    by_cases ht : t = token
    · rw [ht, if_pos rfl, hself, exists_named hnames hnew]
    · rw [if_neg ht, mem_reindex_other ht, hrows]

omit [DecidableEq Ext] in
theorem primaries_written (henv : LawfulAddresses env.toAddressEnv) (h : Indexed env r)
    {n : Normalized Payload} (hkeyed : Keyed env n) {registration : DeviceRegistration Ext}
    (hprimary : registration.primaryAddress = n.primary.map Prod.fst) (a : Payload) (t : Text) :
    (a, t) ∈ reindexPrimary env r.primaryAddresses n.token (r.devices.lookup n.token) n.primary ↔
      ∃ old, (r.devices.insert n.token registration).lookup t = some old ∧
        old.primaryAddress.bind (payloadOf env) = some a := by
  rw [exists_insert_iff]
  by_cases ht : t = n.token
  · subst ht
    rw [if_pos rfl, mem_reindexPrimary
      (fun old hold => (h.filed n.token old hold).primary_normal henv)
      (fun b => h.primaryAddresses b n.token) hkeyed.primary, hprimary]
    cases hp : n.primary with
    | none => simp
    | some e =>
      rw [Option.map_some, Option.bind_some, hkeyed.primary e hp]
      simp
  · rw [if_neg ht, mem_reindexPrimary_other ht, h.primaryAddresses]
    rfl

omit [DecidableEq Ext] in
/-- A harmless write keeps the invariant. -/
theorem indexed_written (henv : LawfulAddresses env.toAddressEnv) (h : Indexed env r)
    {args : RegistrationArgs Ext} {n : Normalized Payload} (hn : NormalizedFrom env args n)
    {wallet : Option WalletBinding} {device : Option DeviceKeyBinding} {now : ℕ}
    {registration : DeviceRegistration Ext}
    (hbuilt : registration =
      buildRegistration env n args (r.devices.lookup n.token) wallet device now)
    (hreadable : Readable n.token (n.addresses.map Prod.fst) (n.groupIds.map Prod.fst)
      (n.primary.map Prod.fst))
    (hkeeps : Keeps (payloadOf env) (((r.devices.lookup n.token).map (·.watchedAddresses)).getD [])
      n.addresses) (global : List Payload) :
    Indexed env { cached env n (writeRegistration env r n (r.devices.lookup n.token) registration) with
      watchOnlyGlobal := global } := by
  have hkeyed := keyed_of_normalized henv hn
  have hstored : Stored env n.token registration := hbuilt ▸ stored_build henv hn _ _ _ _
  have hlookup : (r.devices.insert n.token registration).lookup n.token = some registration :=
    AList.lookup_insert _
  have hcached : ∀ t, CachedAs env
      (cached env n (writeRegistration env r n (r.devices.lookup n.token) registration)) t := by
    apply cached_update hlookup
    · rw [hbuilt]
      rfl
    · rw [hbuilt]
      rfl
    · rw [hbuilt]
      rfl
    · exact fun u hu => (h.caches u).of_devices
        (fun o ho => ⟨o, (AList.lookup_insert_ne hu).trans ho, rfl, rfl, rfl⟩) rfl rfl rfl
  exact {
    filed := fun t old hold => filed_insert h.filed hstored hold
    readable := by
      intro t old hold
      by_cases ht : t = n.token
      · subst ht
        obtain rfl := Option.some.inj (hlookup.symm.trans hold)
        rw [hbuilt]
        exact hreadable
      · exact h.readable t old ((AList.lookup_insert_ne ht).symm.trans hold)
    watched := (rows_written h.watched (by rw [hbuilt]; rfl) hkeyed.addresses).mpr hkeeps
    watchedGroups := (rows_written h.watchedGroups (by rw [hbuilt]; rfl) hkeyed.groupIds).mpr
      (keeps_groups h.filed hn)
    primaryAddresses := primaries_written henv h hkeyed (by rw [hbuilt]; rfl)
    caches := fun t => (hcached t).of_devices (fun o ho => ⟨o, ho, rfl, rfl, rfl⟩) rfl rfl rfl }

omit [DecidableEq Payload] [DecidableEq Ext] in
theorem exists_erase_iff {token t : Text} {P : DeviceRegistration Ext → Prop} :
    (∃ old, (r.devices.erase token).lookup t = some old ∧ P old) ↔
      t ≠ token ∧ ∃ old, r.devices.lookup t = some old ∧ P old := by
  by_cases ht : t = token
  · subst ht
    rw [AList.lookup_erase]
    simp
  · rw [AList.lookup_erase_ne ht]
    simp [ht]

omit [DecidableEq Payload] [DecidableEq Ext] in
/-- The rows of a device that goes, under all its keys. -/
theorem rows_erased {α : Type} [DecidableEq α] {rows : List (α × Text)}
    {P : DeviceRegistration Ext → α → Prop}
    (hrows : ∀ a t, (a, t) ∈ rows ↔ ∃ old, r.devices.lookup t = some old ∧ P old a) {token : Text}
    {keys : List α} (hkeys : ∀ old a, r.devices.lookup token = some old → P old a → a ∈ keys)
    (a : α) (t : Text) :
    (a, t) ∈ removeRows rows (keys.map fun key => (key, token)) ↔
      ∃ old, (r.devices.erase token).lookup t = some old ∧ P old a := by
  rw [mem_removeRows, hrows, exists_erase_iff]
  constructor
  · rintro ⟨⟨old, hold, hP⟩, hkept⟩
    refine ⟨fun ht => hkept ?_, old, hold, hP⟩
    subst ht
    exact mem_tokenRows.mpr (hkeys old a hold hP)
  · rintro ⟨ht, hP⟩
    refine ⟨hP, fun hmem => ht ?_⟩
    obtain ⟨key, -, hkey⟩ := List.mem_map.mp hmem
    exact (Prod.mk.inj hkey).2.symm

omit [DecidableEq Payload] [DecidableEq Ext] in
theorem removeRows_nil {α : Type} [DecidableEq α] (rows : List α) : removeRows rows [] = rows := by
  simp [removeRows]

omit [DecidableEq Ext] in
/-- The rows that go with a device, none where it is not stored. -/
theorem eraseRegistration_eq (env : RegistryEnv Address Payload) (r : Registry Payload Ext)
    (token : Text) : eraseRegistration env r token =
      { r with
        devices := r.devices.erase token
        watched := removeRows r.watched
          (((((r.devices.lookup token).map (·.watchedAddresses)).getD []).filterMap
            (payloadOf env)).map fun p => (p, token))
        watchedGroups := removeRows r.watchedGroups
          (((((r.devices.lookup token).map (·.watchedGroupIds)).getD []).filterMap
            (groupIdOf env)).map fun g => (g, token))
        primaryAddresses := removeRows r.primaryAddresses
          ((((r.devices.lookup token).bind (·.primaryAddress)).bind (payloadOf env)).toList.map
            fun p => (p, token)) } := by
  unfold eraseRegistration
  cases r.devices.lookup token with
  | none => simp [removeRows_nil]
  | some old => rfl

omit [DecidableEq Ext] in
theorem indexed_erased (h : Indexed env r) (token : Text) (global : List Payload) :
    Indexed env { clearCaches (eraseRegistration env r token) token with watchOnlyGlobal := global } := by
  rw [eraseRegistration_eq]
  exact {
    filed := fun t old hold => filed_erase h.filed hold
    readable := by
      intro t old hold
      obtain ⟨-, o, ho, rfl⟩ := exists_erase_iff.mp ⟨old, hold, rfl⟩
      exact h.readable t _ ho
    watched := by
      refine rows_erased h.watched fun old a hold hkey => ?_
      rw [hold]
      obtain ⟨x, hx, ha⟩ := hkey
      exact List.mem_filterMap.mpr ⟨x, hx, ha⟩
    watchedGroups := by
      refine rows_erased h.watchedGroups fun old g hold hkey => ?_
      rw [hold]
      obtain ⟨x, hx, hg⟩ := hkey
      exact List.mem_filterMap.mpr ⟨x, hx, hg⟩
    primaryAddresses := by
      refine rows_erased h.primaryAddresses fun old a hold hkey => ?_
      rw [hold, Option.bind_some, hkey]
      exact List.mem_singleton_self a
    caches := by
      intro t
      by_cases ht : t = token
      · subst ht
        have hgone {β : Type} (l : AList fun _ : Text => β) (b : β) :
            (l.erase t).lookup t ≠ some b := by
          rw [AList.lookup_erase]
          simp
        exact ⟨fun l hl => absurd hl (hgone _ l), fun p hp => absurd hp (hgone _ p),
          fun l hl => absurd hl (hgone _ l)⟩
      · exact (h.caches t).of_devices
          (fun o ho => ⟨o, (AList.lookup_erase_ne ht).trans ho, rfl, rfl, rfl⟩)
          (AList.lookup_erase_ne ht) (AList.lookup_erase_ne ht) (AList.lookup_erase_ne ht) }

omit [DecidableEq Payload] [DecidableEq Ext] in
theorem indexed_environment (h : Indexed env r) {token : Text} {old : DeviceRegistration Ext}
    (hold : r.devices.lookup token = some old) (environment : Option Text) :
    Indexed env { r with
      devices := r.devices.insert token { old with apnsEnvironment := environment } } := by
  have hiff {P : DeviceRegistration Ext → Prop} {t : Text}
      (hP : P { old with apnsEnvironment := environment } ↔ P old) :
      (∃ o, (r.devices.insert token { old with apnsEnvironment := environment }).lookup t = some o ∧
        P o) ↔ ∃ o, r.devices.lookup t = some o ∧ P o := by
    rw [exists_insert_iff]
    by_cases ht : t = token
    · subst ht
      rw [if_pos rfl, hP, hold]
      simp
    · rw [if_neg ht]
  exact {
    filed := by
      have hstored : Stored env token { old with apnsEnvironment := environment } :=
        { h.filed token old hold with }
      exact fun t o ho => filed_insert h.filed hstored ho
    readable := by
      intro t o ho
      by_cases ht : t = token
      · subst ht
        rw [AList.lookup_insert] at ho
        obtain rfl := Option.some.inj ho
        exact h.readable t old hold
      · exact h.readable t o ((AList.lookup_insert_ne ht).symm.trans ho)
    watched := fun a t => (h.watched a t).trans (hiff Iff.rfl).symm
    watchedGroups := fun g t => (h.watchedGroups g t).trans (hiff Iff.rfl).symm
    primaryAddresses := fun a t => (h.primaryAddresses a t).trans (hiff Iff.rfl).symm
    caches := by
      intro t
      refine (h.caches t).of_devices (fun o ho => ?_) rfl rfl rfl
      by_cases ht : t = token
      · subst ht
        obtain rfl := Option.some.inj (hold.symm.trans ho)
        exact ⟨_, AList.lookup_insert _, rfl, rfl, rfl⟩
      · exact ⟨o, (AList.lookup_insert_ne ht).trans ho, rfl, rfl, rfl⟩ }

omit [DecidableEq Ext] in
/-- An address under which no token is found has no rows to prune. -/
theorem pruned_same (h : Indexed env r) {address : Payload} (hnone : tokensForAddress r address = []) :
    (r.watched.filter fun row => row.1 ≠ address) = r.watched := by
  rw [List.filter_eq_self]
  rintro ⟨a, token⟩ hrow
  rw [decide_eq_true_eq]
  rintro rfl
  have hwatches := (h.watched _ token).mp hrow
  have hmem := ((correct_of_indexed h).addresses _ token).mpr hwatches
  rw [hnone] at hmem
  cases hmem

omit [DecidableEq Ext] in
theorem indexed_match (h : Indexed env r) (address : Payload) (name : Option Text)
    (receiver : Option Payload) (commit : Except Text Unit) :
    Indexed env (matchingTokens env r address name receiver commit).1 := by
  unfold matchingTokens
  dsimp only
  split
  · next hnone =>
    cases commit with
    | error e => exact h
    | ok u =>
      unfold pruneAddressWatchers
      dsimp only
      rw [pruned_same h hnone]
      exact h
  · exact filterTokens_keeps (fun r token h => h.hydrate token) h name receiver _

omit [DecidableEq Payload] [DecidableEq Ext] in
/-- What is not committed does no harm. -/
theorem harmlessSave_failed (platform : Option Text) (args : RegistrationArgs Ext) (now : ℕ)
    (e : Text) : HarmlessSave env r platform args now (.error e) := by
  unfold HarmlessSave
  cases prepare env r platform args now <;> trivial

omit [DecidableEq Payload] [DecidableEq Ext] in
theorem harmlessSave_iff {platform : Option Text} {args : RegistrationArgs Ext} {now : ℕ}
    {n : Normalized Payload} {registration : DeviceRegistration Ext}
    (hprepare : prepare env r platform args now = .ok (n, registration)) :
    HarmlessSave env r platform args now (.ok ()) ↔
      Readable n.token (n.addresses.map Prod.fst) (n.groupIds.map Prod.fst)
          (n.primary.map Prod.fst) ∧
        Keeps (payloadOf env) (((r.devices.lookup n.token).map (·.watchedAddresses)).getD [])
          n.addresses := by
  simp only [HarmlessSave, hprepare]

theorem indexed_save (henv : LawfulAddresses env.toAddressEnv) (h : Indexed env r)
    {platform : Option Text} {args : RegistrationArgs Ext} {now : ℕ} {commit : Except Text Unit}
    (hharmless : HarmlessSave env r platform args now commit) :
    Indexed env (save env r platform args now commit).1 := by
  rcases save_cases env r platform args now commit with
    ⟨e, -, he⟩ | ⟨n, registration, hprepare, ⟨old, hold, hsame, hout⟩ | ⟨rfl, global, hout⟩⟩
  · rwa [he]
  · obtain ⟨hn, wallet, device, -, -, hbuilt⟩ := prepare_spec hprepare
    have hequal := unchanged_spec hsame
    rw [hout]
    refine { h with caches := cached_update hold ?_ ?_ ?_ fun t _ => h.caches t }
    · rw [aliasSet, aliasSet, hequal.aliases, hbuilt]
      rfl
    · rw [← (h.filed n.token old hold).primary_normal henv, hequal.primaryAddress, hbuilt]
      rfl
    · rw [hequal.capabilities, hbuilt]
      rfl
  · obtain ⟨hn, wallet, device, -, -, hbuilt⟩ := prepare_spec hprepare
    obtain ⟨hreadable, hkeeps⟩ := (harmlessSave_iff hprepare).mp hharmless
    rw [hout]
    exact indexed_written henv h (normalizeArgs_spec hn) hbuilt hreadable hkeeps global

/-- One command keeps the invariant, unless it writes what the index cannot hold. -/
theorem indexed_step (henv : LawfulAddresses env.toAddressEnv) (h : Indexed env r)
    {c : Command Payload Ext} (hharmless : Harmless env r c) : Indexed env (step env r c) := by
  cases c with
  | register platform args now commit => exact indexed_save henv h hharmless
  | update args now commit => exact indexed_save henv h hharmless
  | unregister token commit =>
    rcases unregisterInner_cases env r token none false commit with
      ⟨e, he⟩ | ⟨t, -, -, -, global, hout⟩
    · rwa [step, he]
    · rw [step, hout]
      exact indexed_erased h t global
  | unregisterAuthenticated token walletPubkey deviceBinding commit retry =>
    rcases unregisterAuthenticated_cases env r token walletPubkey deviceBinding commit retry with
      hsame | ⟨t, -, -, global, hout⟩
    · rwa [step, hsame]
    · rw [step, hout]
      exact indexed_erased h t global
  | matchTokens address name receiver commit => exact indexed_match h address name receiver commit
  | matchGroupTokens groupId => exact h
  | matchGroupControlTokens sender recipient => exact h
  | matchWatchOnlyTokens address senders => exact h
  | setApnsEnvironment token environment commit =>
    rcases setApnsEnvironment_cases r token environment commit with
      hsame | ⟨t, old, -, hold, hout⟩
    · rwa [step, hsame]
    · rw [step, hout]
      exact indexed_environment h hold (some environment)

omit [DecidableEq Payload] [DecidableEq Ext] in
theorem indexed_new (env : RegistryEnv Address Payload) :
    Indexed env (Registry.new : Registry Payload Ext) := by
  have hnone (t : Text) (old : DeviceRegistration Ext) :
      (Registry.new : Registry Payload Ext).devices.lookup t ≠ some old := by
    rw [Registry.new, AList.lookup_empty]
    simp
  have hempty {P : DeviceRegistration Ext → Prop} (t : Text) :
      ¬∃ old, (Registry.new : Registry Payload Ext).devices.lookup t = some old ∧ P old := by
    rintro ⟨old, hold, -⟩
    exact hnone t old hold
  exact {
    filed := filed_new env
    readable := fun t old hold => absurd hold (hnone t old)
    watched := fun a t => iff_of_false (by simp [Registry.new]) (hempty t)
    watchedGroups := fun g t => iff_of_false (by simp [Registry.new]) (hempty t)
    primaryAddresses := fun a t => iff_of_false (by simp [Registry.new]) (hempty t)
    caches := fun t => ⟨fun l hl => by simp [Registry.new] at hl, fun p hp => by simp [Registry.new] at hp,
      fun l hl => by simp [Registry.new] at hl⟩ }

/-! ## Writes that the index cannot hold -/

omit [DecidableEq Ext] in
/-- A device that the lookups find has a token that can be read. -/
theorem readable_of_correct (h : Correct env r) {token : Text}
    (hfound : (∃ a, WatchesAddress env r a token) ∨ (∃ g, WatchesGroup env r g token) ∨
      ∃ a, HasPrimary env r a token) : (tokenFromIndexKey token).isSome := by
  rcases hfound with ⟨a, ha⟩ | ⟨g, hg⟩ | ⟨a, ha⟩
  · obtain ⟨u, -, hu⟩ := List.mem_filterMap.mp ((h.addresses a token).mpr ha)
    obtain rfl := tokenFromIndexKey_eq hu
    rw [hu]
    rfl
  · obtain ⟨tokens, htokens, hmem⟩ := h.groups g
    exact readable_of_decodeAll htokens token ((hmem token).mpr hg)
  · obtain ⟨tokens, htokens, hmem⟩ := h.primaries a
    exact readable_of_decodeAll htokens token ((hmem token).mpr ha)

/-- A write after which the lookups are right was harmless. -/
theorem harmless_of_correct_save (henv : LawfulAddresses env.toAddressEnv) (h : Indexed env r)
    {platform : Option Text} {args : RegistrationArgs Ext} {now : ℕ} {commit : Except Text Unit}
    (hcorrect : Correct env (save env r platform args now commit).1) :
    HarmlessSave env r platform args now commit := by
  rcases save_cases env r platform args now commit with
    ⟨e, hfailed, -⟩ | ⟨n, registration, hprepare, ⟨old, hold, hsame, -⟩ | ⟨rfl, global, hout⟩⟩
  · rcases hfailed with hprepare | rfl
    · simp only [HarmlessSave, hprepare]
    · exact harmlessSave_failed _ _ _ _
  · obtain ⟨hn, wallet, device, -, -, hbuilt⟩ := prepare_spec hprepare
    have hequal := unchanged_spec hsame
    have haddresses : old.watchedAddresses = n.addresses.map Prod.fst := by
      rw [hequal.watchedAddresses, hbuilt]
      rfl
    have hreadable := h.readable n.token old hold
    rw [← (h.filed n.token old hold).primary_normal henv, hequal.primaryAddress,
      hequal.watchedAddresses, hequal.watchedGroupIds, hbuilt] at hreadable
    cases commit with
    | error e => exact harmlessSave_failed _ _ _ _
    | ok u =>
      refine (harmlessSave_iff hprepare).mpr ⟨hreadable, ?_⟩
      rintro e he - ⟨x, hx, hdropped, -⟩
      rw [hold] at hx
      exact absurd (haddresses ▸ hx) hdropped
  · obtain ⟨hn, wallet, device, -, -, hbuilt⟩ := prepare_spec hprepare
    have hkeyed := keyed_of_normalized henv (normalizeArgs_spec hn)
    rw [hout] at hcorrect
    have hlookup : (r.devices.insert n.token registration).lookup n.token = some registration :=
      AList.lookup_insert _
    have hwatches : ∀ e ∈ n.addresses, WatchesAddress env
        { cached env n (writeRegistration env r n (r.devices.lookup n.token) registration) with
          watchOnlyGlobal := global } e.2 n.token :=
      fun e he => ⟨registration, hlookup, e.1, hbuilt ▸ List.mem_map_of_mem he,
        hkeyed.addresses e he⟩
    refine (harmlessSave_iff hprepare).mpr ⟨?_, ?_⟩
    · by_cases hnone : n.addresses = [] ∧ n.groupIds = [] ∧ n.primary = none
      · obtain ⟨haddresses, hgroupIds, hprimary⟩ := hnone
        exact .inr ⟨by rw [haddresses]; rfl, by rw [hgroupIds]; rfl, by rw [hprimary]; rfl⟩
      · refine .inl (readable_of_correct hcorrect ?_)
        cases haddresses : n.addresses with
        | cons e rest => exact .inl ⟨e.2, hwatches e (haddresses ▸ List.mem_cons_self)⟩
        | nil =>
          cases hgroupIds : n.groupIds with
          | cons e rest =>
            have he : e ∈ n.groupIds := hgroupIds ▸ List.mem_cons_self
            exact .inr (.inl ⟨e.2, registration, hlookup, e.1, hbuilt ▸ List.mem_map_of_mem he,
              hkeyed.groupIds e he⟩)
          | nil =>
            cases hprimary : n.primary with
            | none => exact absurd ⟨haddresses, hgroupIds, hprimary⟩ hnone
            | some e =>
              refine .inr (.inr ⟨e.2, registration, hlookup, ?_⟩)
              rw [hbuilt, buildRegistration, hprimary, Option.map_some, Option.bind_some,
                hkeyed.primary e hprimary]
    · intro e he hkept hdropped
      obtain ⟨u, hu, htoken⟩ := List.mem_filterMap.mp
        ((hcorrect.addresses e.2 n.token).mpr (hwatches e he))
      obtain rfl := tokenFromIndexKey_eq htoken
      have hchanged : ((r.devices.lookup n.token).map (·.watchedAddresses)).getD [] ≠
          n.addresses.map Prod.fst := by
        obtain ⟨x, hx, hgone, -⟩ := hdropped
        exact fun hsame => hgone (hsame ▸ hx)
      rcases (mem_reindex_self hchanged).mp (mem_rowTokens.mp hu) with ⟨-, hnone⟩ | hadded
      · exact absurd hdropped hnone
      · exact hadded

theorem harmless_of_correct (henv : LawfulAddresses env.toAddressEnv) (h : Indexed env r)
    {c : Command Payload Ext} (hcorrect : Correct env (step env r c)) : Harmless env r c := by
  cases c with
  | register platform args now commit => exact harmless_of_correct_save henv h hcorrect
  | update args now commit => exact harmless_of_correct_save henv h hcorrect
  | unregister | unregisterAuthenticated | matchTokens | matchGroupTokens | matchGroupControlTokens
  | matchWatchOnlyTokens | setApnsEnvironment => trivial

/-! ## Runs -/

/-- Every command of the run is harmless where it comes. -/
def HarmlessRun (env : RegistryEnv Address Payload) (commands : List (Command Payload Ext)) : Prop :=
  ∀ before c after, commands = before ++ c :: after → Harmless env (run env Registry.new before) c

/-- After every command the lookups are right, and no lookup by address removes the row of a device
that watches the address. -/
def LookupsCorrect (env : RegistryEnv Address Payload) (commands : List (Command Payload Ext)) : Prop :=
  (∀ before after, commands = before ++ after → Correct env (run env Registry.new before)) ∧
    ∀ before address name receiver commit after,
      commands = before ++ .matchTokens address name receiver commit :: after →
        ∀ a token, WatchesAddress env (run env Registry.new before) a token →
          (a, token) ∈ (run env Registry.new before).watched →
            (a, token) ∈ (run env Registry.new (before ++ [.matchTokens address name receiver commit])).watched

theorem run_append (before after : List (Command Payload Ext)) (r : Registry Payload Ext) :
    run env r (before ++ after) = run env (run env r before) after := List.foldl_append

theorem indexed_run (henv : LawfulAddresses env.toAddressEnv) {commands : List (Command Payload Ext)}
    (h : HarmlessRun env commands) {before after : List (Command Payload Ext)}
    (hsplit : commands = before ++ after) : Indexed env (run env Registry.new before) := by
  induction before using List.reverseRecOn generalizing after with
  | nil => exact indexed_new env
  | append_singleton before c ih =>
    have hsplit' : commands = before ++ c :: after := by rw [hsplit, List.append_assoc]; rfl
    rw [run_append]
    exact indexed_step henv (ih hsplit') (h before c after hsplit')

/-- The lookups are right throughout a run exactly when no command of it gives a device whose token
the index keys cannot hold anything to be looked up by, or drops an address while another of its
payload stays. -/
theorem lookups_correct_iff (henv : LawfulAddresses env.toAddressEnv)
    (commands : List (Command Payload Ext)) :
    LookupsCorrect env commands ↔ HarmlessRun env commands := by
  constructor
  · rintro ⟨hcorrect, -⟩
    have hindexed {before after : List (Command Payload Ext)} (hsplit : commands = before ++ after) :
        Indexed env (run env Registry.new before) := by
      induction before using List.reverseRecOn generalizing after with
      | nil => exact indexed_new env
      | append_singleton before c ih =>
        have hbefore := ih (hsplit.trans (List.append_assoc before [c] after))
        have hafter := hcorrect (before ++ [c]) after hsplit
        rw [run_append] at hafter ⊢
        exact indexed_step henv hbefore (harmless_of_correct henv hbefore hafter)
    intro before c after hsplit
    have hafter := hcorrect (before ++ [c]) after (by rw [hsplit, List.append_assoc]; rfl)
    rw [run_append] at hafter
    exact harmless_of_correct henv (hindexed hsplit) hafter
  · intro h
    refine ⟨fun before after hsplit => correct_of_indexed (indexed_run henv h hsplit), ?_⟩
    intro before address name receiver commit after hsplit a token hwatches _
    have hsplit' : commands = (before ++ [.matchTokens address name receiver commit]) ++ after := by
      rw [hsplit, List.append_assoc]
      rfl
    rw [(indexed_run henv h hsplit').watched]
    obtain ⟨old, hold, hkey⟩ := hwatches
    refine ⟨old, ?_, hkey⟩
    rw [run_append]
    exact (congrArg (AList.lookup token) (matchingTokens_devices _ address name receiver commit)).trans
      hold

end

/-! ## A sample -/

section
variable {Address Payload Ext : Type} {env : RegistryEnv Address Payload} {r : Registry Payload Ext}

/-- The first registration of a device whose token is no endpoint does no harm. -/
theorem harmless_first {platform : Option Text} {args : RegistrationArgs Ext} {now : ℕ}
    {commit : Except Text Unit} (hargs : ∀ token, normalizeDeviceToken args.token = .ok token →
      (tokenFromIndexKey token).isSome ∧ r.devices.lookup token = none) :
    HarmlessSave env r platform args now commit := by
  cases commit with
  | error e => exact harmlessSave_failed _ _ _ e
  | ok u =>
    cases hprepare : prepare env r platform args now with
    | error e => simp only [HarmlessSave, hprepare]
    | ok p =>
      obtain ⟨n, registration⟩ := p
      obtain ⟨htoken, hnone⟩ := hargs n.token (normalizeArgs_spec (prepare_spec hprepare).1).token
      refine (harmlessSave_iff hprepare).mpr ⟨.inl htoken, fun e _ hold => ?_⟩
      rw [hnone] at hold
      cases hold

end

/-- One device that watches one address. -/
def sampleRegister (platform token : Text) : Command Text Unit :=
  .register platform
    { token := token
      watchedAddresses := ["kaspa:q".toList]
      watchedGroupIds := []
      capabilities := []
      primaryAddress := none
      aliases := []
      extension := ()
      watchOnlyAddresses := []
      apnsEnvironment := none
      voipToken := none
      webPush := none
      apnsTopic := none
      androidChannelId := none
      walletBinding := none
      deviceKeyBinding := none } 0 (.ok ())

/-- A device with an APNs token. -/
theorem sample_found :
    LookupsCorrect plainEnv [sampleRegister "ios".toList (List.replicate 64 'c')] := by
  refine (lookups_correct_iff plainEnv_lawful _).mpr fun before c after hsplit => ?_
  cases before with
  | cons d before => simp at hsplit
  | nil =>
    obtain ⟨rfl, -⟩ := List.cons.inj hsplit
    simp only [sampleRegister, Harmless]
    apply harmless_first
    intro token htoken
    have hc : normalizeDeviceToken (List.replicate 64 'c') = .ok (List.replicate 64 'c') :=
      ok_of_toOption (by decide +kernel)
    obtain rfl := Except.ok.inj (hc.symm.trans htoken)
    exact ⟨by decide +kernel, rfl⟩

/-- A browser's endpoint is no token to the index, so its device is not found by its address. -/
theorem endpoint_not_found : ¬∀ env : RegistryEnv Text Text, LawfulAddresses env.toAddressEnv →
    ∀ commands : List (Command Text Unit), LookupsCorrect env commands := by
  intro h
  let command := sampleRegister "web".toList "https://fcm.googleapis.com/x".toList
  have hcorrect := (h plainEnv plainEnv_lawful [command]).1 [command] [] rfl
  have hstored : ((run plainEnv Registry.new [command]).devices.lookup
      "https://fcm.googleapis.com/x".toList).any (fun old => "kaspa:q".toList ∈ old.watchedAddresses) =
        true := by decide +kernel
  obtain ⟨old, hold, hmem⟩ := (Option.any_eq_true _ _).mp hstored
  have hfound := (hcorrect.addresses "kaspa:q".toList "https://fcm.googleapis.com/x".toList).mpr
    ⟨old, hold, "kaspa:q".toList, of_decide_eq_true hmem, by decide +kernel⟩
  exact absurd hfound (by decide +kernel)

end KaChatIndexer.PushLookups
