import KaChatIndexer.NamesPages
import KaChatIndexer.NamesSample
import KaChatIndexer.TiedRows

/-!
# Identities, one and many

The identity of an address: the names it holds, oldest first, its profile, and the label. A batch asks
for all profiles and all names at once and puts together what a request for each address gives, as
long as the database has one way to answer.
-/
namespace KaChatIndexer.NamesIdentities
open ByteStrings NamesState NamesEnv NamesProfile NamesStore NamesPages PagedReads TiedRows
open KaText (Text trim)

/-- A parsed address. -/
structure Address where
  /-- `to_string` -/
  text : Text
  isPubKey : Bool
  payload : Bytes

/-- A row of `names_profiles`. -/
structure ProfileRow where
  spk : Bytes
  address : Text
  profile : Bytes

structure IdentityDb where
  utxos : List StoredUtxo
  profiles : List ProfileRow
  outpoints : (utxos.map (·.outpoint)).Nodup
  spks : (profiles.map (·.spk)).Nodup

structure IdentityEnv where
  names : Env
  /-- `Address::try_from` -/
  tryFrom : Text → Option Address

/-- The registry when a names manifest is loaded, else profiles only. -/
inductive IdentitySource
  | registry (c : Ctx)
  | profilesOnly

structure Identity where
  address : Text
  label : Option Bytes
  names : List Bytes
  /-- `none` is null. -/
  profile : Option Profile
  deriving DecidableEq

/-- What the database answers: to the queries of a single request by key and by address, and to those of
a batch. -/
structure Fetched where
  owned : Bytes → List StoredUtxo
  profile : Text → List ProfileRow
  ownedAny : List Bytes → List StoredUtxo
  profileAny : List Text → List ProfileRow

def createdKey (u : StoredUtxo) : ℤ := u.createdDaa.toInt

/-- `kind = 'name' AND NOT refuted AND owner = $1` -/
def ownedBy (key : Bytes) (u : StoredUtxo) : Bool := nameSelect u && decide (u.row.owner = some key)

/-- `kind = 'name' AND NOT refuted AND owner = ANY($1)` -/
def ownedByAny (keys : List Bytes) (u : StoredUtxo) : Bool := nameSelect u && u.row.owner.any (· ∈ keys)

/-- The names come by their DAA score, and in any order where that does not tell them apart. -/
structure Fetched.Valid (db : IdentityDb) (f : Fetched) : Prop where
  owned : ∀ key, Ordered createdKey (db.utxos.filter (ownedBy key)) (f.owned key)
  profile : ∀ address, (f.profile address).Perm (db.profiles.filter (·.address = address))
  ownedAny : ∀ keys, Ordered createdKey (db.utxos.filter (ownedByAny keys)) (f.ownedAny keys)
  profileAny : ∀ addresses, (f.profileAny addresses).Perm (db.profiles.filter (·.address ∈ addresses))

section
variable (env : IdentityEnv)

def normalizeAddress (address : Text) : Option Text := (env.tryFrom (trim address)).map Address.text

/-- The key behind a P2PK address. -/
def addressKey (address : Text) : Option Bytes :=
  (env.tryFrom (trim address)).bind fun a =>
    if a.isPubKey ∧ a.payload.length = 32 then some a.payload else none

def cleanProfile (row : ProfileRow) : Option Profile := parseProfile env.names row.profile

end

/-- A name labels its owner while it is active or in grace. -/
def heldName (c : Ctx) (u : StoredUtxo) : Option Bytes :=
  if rowStatus c u ≠ .lapsed then u.row.name else none

/-- `trim_end_matches` -/
def trimEndMatches (suffix t : Bytes) : Bytes :=
  (fun t => if suffix.isSuffixOf t then t.take (t.length - suffix.length) else t)^[t.length] t

/-- The label is the primary name while it is held, else the oldest held name. -/
def identityJson (address : Text) (names : List Bytes) (profile : Option Profile) : Identity :=
  let primary := (profile.bind Profile.primaryName).map (trimEndMatches (ascii ".kachat"))
  let label := match primary with
    | some p => if p ∈ names then some p else names.head?
    | none => names.head?
  ⟨address, label, names, profile⟩

def profileOnlyIdentity (address : Text) (profile : Option Profile) : Identity :=
  ⟨address, none, [], profile⟩

section
variable (env : IdentityEnv) (f : Fetched)

def profileFor (address : Text) : Option Profile := (f.profile address).head?.bind (cleanProfile env)

def identityFor (c : Ctx) (address : Text) : Identity :=
  let names := match addressKey env address with
    | some key => (f.owned key).filterMap (heldName c)
    | none => []
  identityJson address names (profileFor env f address)

/-- The identity of a normalized address. -/
def identityFrom (src : IdentitySource) (address : Text) : Identity :=
  match src with
  | .registry c => identityFor env f c address
  | .profilesOnly => profileOnlyIdentity address (profileFor env f address)

/-- The identities of normalized addresses. -/
def identities (src : IdentitySource) (addresses : List Text) : List (Text × Identity) :=
  let addresses := addresses.dedup
  let profiles := f.profileAny addresses
  let held : List StoredUtxo := match src with
    | .registry _ =>
      let keys := addresses.filterMap (addressKey env)
      if keys.isEmpty then [] else f.ownedAny keys
    | .profilesOnly => []
  addresses.map fun address =>
    let profile := (profiles.find? (·.address = address)).bind (cleanProfile env)
    let identity := match src with
      | .registry c =>
        let names := match addressKey env address with
          | some key => (held.filter (·.row.owner = some key)).filterMap (heldName c)
          | none => []
        identityJson address names profile
      | .profilesOnly => profileOnlyIdentity address profile
    (address, identity)

def maxBatch : ℕ := 200

def tooMany : ApiError := ⟨400, "too_many".toList, "at most 200 addresses".toList⟩

/-- The identity of each string of the body that is an address. -/
def identityBatch (src : IdentitySource) (body : List Text) : Except ApiError (Text → Option Identity) :=
  if maxBatch < body.length then .error tooMany
  else
    let wanted := body.filterMap fun raw => (normalizeAddress env raw).map fun address => (raw, address)
    let found := identities env f src (wanted.map Prod.snd)
    .ok fun raw => (wanted.find? (·.1 = raw)).bind fun w => (found.find? (·.1 = w.2)).map Prod.snd

end

section
variable (env : IdentityEnv) (f : Fetched)

/-- What the answers of a batch hold for each key and address. -/
def Fetched.within (addresses : List Text) : Fetched where
  owned key := (f.ownedAny (addresses.filterMap (addressKey env))).filter (·.row.owner = some key)
  profile address := (f.profileAny addresses).filter (·.address = address)
  ownedAny := f.ownedAny
  profileAny := f.profileAny

variable {env f} {src : IdentitySource} {db : IdentityDb} {addresses : List Text} {address : Text}

/-- A batch gives each of its addresses the identity its own answers hold. -/
theorem identities_find (h : address ∈ addresses) :
    (identities env f src addresses).find? (·.1 = address) =
      some (address, identityFrom env (f.within env addresses.dedup) src address) := by
  have hmem : address ∈ addresses.dedup := List.mem_dedup.mpr h
  have hfind (g : Text → Identity) : ((addresses.dedup.map fun a => (a, g a)).find? (·.1 = address)) =
      some (address, g address) := by
    rw [List.find?_map]
    have hself : addresses.dedup.find? (fun a => decide (a = address)) = some address := by
      have hsome : (addresses.dedup.find? fun a => decide (a = address)).isSome :=
        List.find?_isSome.mpr ⟨address, hmem, decide_eq_true rfl⟩
      obtain ⟨b, hb⟩ := Option.isSome_iff_exists.mp hsome
      have heq := List.find?_some hb
      rw [hb, of_decide_eq_true heq]
    exact congrArg (Option.map fun a => (a, g a)) hself
  unfold identities
  refine (hfind _).trans (congrArg (fun i => some (address, i)) ?_)
  cases src with
  | profilesOnly =>
    simp only [identityFrom, profileFor, Fetched.within, List.head?_filter]
  | registry c =>
    simp only [identityFrom, identityFor, profileFor, Fetched.within, List.head?_filter]
    cases hkey : addressKey env address with
    | none => rfl
    | some key =>
      have hkeys : (addresses.dedup.filterMap (addressKey env)).isEmpty = false :=
        List.isEmpty_eq_false_iff_exists_mem.mpr ⟨key, List.mem_filterMap.mpr ⟨address, hmem, hkey⟩⟩
      rw [hkeys]
      rfl

/-- Identities are alike when the profile and the held names are. -/
theorem identityFrom_eq {f' : Fetched} : identityFrom env f src address = identityFrom env f' src address ↔
    profileFor env f address = profileFor env f' address ∧
      ∀ c, src = .registry c → ∀ key, addressKey env address = some key →
        (f.owned key).filterMap (heldName c) = (f'.owned key).filterMap (heldName c) := by
  cases src with
  | profilesOnly =>
    constructor
    · exact fun h => ⟨congrArg Identity.profile h, nofun⟩
    · exact fun h => congrArg (profileOnlyIdentity address) h.1
  | registry c =>
    simp only [identityFrom, identityFor]
    cases hkey : addressKey env address with
    | none =>
      constructor
      · exact fun h => ⟨congrArg Identity.profile h, fun _ _ _ h => nomatch h⟩
      · exact fun h => congrArg (identityJson address []) h.1
    | some key =>
      constructor
      · intro h
        refine ⟨congrArg Identity.profile h, fun c' hc key' hkey' => ?_⟩
        cases hc
        cases hkey'
        exact congrArg Identity.names h
      · intro h
        rw [h.1]
        exact congrArg (fun names => identityJson address names _) (h.2 c rfl key rfl)

/-- The strings of a body that are addresses. -/
theorem wanted_find {α β : Type*} [DecidableEq α] (g : α → Option β) (l : List α) (x : α) :
    (l.filterMap fun a => (g a).map fun b => (a, b)).find? (·.1 = x) =
      if x ∈ l then (g x).map fun b => (x, b) else none := by
  induction l with
  | nil => rfl
  | cons a l ih =>
    by_cases ha : x = a
    · subst ha
      cases hg : g x with
      | none => simp [hg, ih]
      | some b => simp [hg]
    · cases hg : g a with
      | none => simp [hg, ih, ha]
      | some b => simp [hg, ih, ha, Ne.symm ha]

variable (env) in
/-- The addresses a body asks for. -/
def asked (body : List Text) : List Text :=
  (body.filterMap fun raw => (normalizeAddress env raw).map fun address => (raw, address)).map Prod.snd

theorem mem_asked {body : List Text} {raw : Text} (hraw : raw ∈ body)
    (h : normalizeAddress env raw = some address) : address ∈ asked env body := by
  refine List.mem_map.mpr ⟨(raw, address), List.mem_filterMap.mpr ⟨raw, hraw, ?_⟩, rfl⟩
  rw [h, Option.map_some]

/-- A batch leaves out what is no address and gives the others what its answers hold. -/
theorem identityBatch_eq {body : List Text} (hlen : body.length ≤ maxBatch) :
    identityBatch env f src body = .ok fun raw => if raw ∈ body then
      (normalizeAddress env raw).map (identityFrom env (f.within env (asked env body).dedup) src)
      else none := by
  rw [identityBatch, if_neg (by omega)]
  refine congrArg Except.ok (funext fun raw => ?_)
  rw [wanted_find]
  by_cases hraw : raw ∈ body
  · rw [if_pos hraw, if_pos hraw]
    cases haddress : normalizeAddress env raw with
    | none => rfl
    | some address =>
      have hfind : (identities env f src (asked env body)).find? (·.1 = address) = some (address, _) :=
        identities_find (mem_asked hraw haddress)
      exact congrArg (Option.map Prod.snd) hfind
  · rw [if_neg hraw, if_neg hraw]
    rfl

end

/-- The database has one way to answer for an address: its profile rows say the same, and the names of
one DAA score that label its owner are one. -/
structure Settled (env : IdentityEnv) (src : IdentitySource) (db : IdentityDb) (address : Text) : Prop where
  profile : ∀ p ∈ db.profiles, ∀ q ∈ db.profiles, p.address = address → q.address = address →
    cleanProfile env p = cleanProfile env q
  names : ∀ c, src = .registry c → ∀ key, addressKey env address = some key →
    Untied createdKey (heldName c) (db.utxos.filter (ownedBy key))

section
variable {env : IdentityEnv} {src : IdentitySource} {db : IdentityDb} {f : Fetched} {address : Text}

/-- What a batch holds for one of its keys is an answer for that key. -/
theorem Fetched.Valid.within_owned (hf : f.Valid db) {addresses : List Text} (h : address ∈ addresses)
    {key : Bytes} (hkey : addressKey env address = some key) :
    Ordered createdKey (db.utxos.filter (ownedBy key)) ((f.within env addresses).owned key) := by
  have hany := hf.ownedAny (addresses.filterMap (addressKey env))
  have hin : key ∈ addresses.filterMap (addressKey env) := List.mem_filterMap.mpr ⟨address, h, hkey⟩
  refine ⟨?_, hany.sorted.sublist List.filter_sublist⟩
  refine (hany.perm.filter _).trans (List.Perm.of_eq ?_)
  rw [List.filter_filter]
  refine List.filter_congr fun u _ => ?_
  simp only [ownedBy, ownedByAny]
  by_cases howner : u.row.owner = some key
  · have hany : u.row.owner.any (· ∈ addresses.filterMap (addressKey env)) = true := by
      rw [howner]
      exact decide_eq_true hin
    rw [hany, howner]
    simp
  · simp [howner]

theorem Fetched.Valid.within_profile (hf : f.Valid db) {addresses : List Text} (h : address ∈ addresses) :
    ((f.within env addresses).profile address).Perm (db.profiles.filter (·.address = address)) := by
  refine ((hf.profileAny addresses).filter _).trans (List.Perm.of_eq ?_)
  rw [List.filter_filter]
  refine List.filter_congr fun p _ => ?_
  by_cases hp : p.address = address
  · simp [hp, h]
  · simp [hp]

/-- The database's answers in one order. -/
def fetchedSorted (db : IdentityDb) : Fetched where
  owned key := (db.utxos.filter (ownedBy key)).insertionSort fun a b => createdKey a ≤ createdKey b
  profile address := db.profiles.filter (·.address = address)
  ownedAny keys := (db.utxos.filter (ownedByAny keys)).insertionSort fun a b => createdKey a ≤ createdKey b
  profileAny addresses := db.profiles.filter (·.address ∈ addresses)

theorem fetchedSorted_valid (db : IdentityDb) : (fetchedSorted db).Valid db where
  owned _ := ordered_sort _
  profile _ := .refl _
  ownedAny _ := ordered_sort _
  profileAny _ := .refl _

/-- Where the rows of an address say the same, the first of any answer says it. -/
theorem profileFor_eq (h : ∀ p ∈ db.profiles, ∀ q ∈ db.profiles, p.address = address →
    q.address = address → cleanProfile env p = cleanProfile env q) {f' : Fetched}
    (hf : (f.profile address).Perm (db.profiles.filter (·.address = address)))
    (hf' : (f'.profile address).Perm (db.profiles.filter (·.address = address))) :
    profileFor env f address = profileFor env f' address := by
  have hmem {l : List ProfileRow} (hl : l.Perm (db.profiles.filter (·.address = address))) {p : ProfileRow}
      (hp : p ∈ l) : p ∈ db.profiles ∧ p.address = address := by
    obtain ⟨hp, haddress⟩ := List.mem_filter.mp (hl.mem_iff.mp hp)
    exact ⟨hp, of_decide_eq_true haddress⟩
  have hlen := (hf.trans hf'.symm).length_eq
  unfold profileFor
  rcases hl : f.profile address with - | ⟨p, l⟩ <;> rcases hl' : f'.profile address with - | ⟨q, l'⟩
  · rfl
  · rw [hl, hl'] at hlen
    cases hlen
  · rw [hl, hl'] at hlen
    cases hlen
  · obtain ⟨hp, hpa⟩ := hmem hf (hl ▸ List.mem_cons_self)
    obtain ⟨hq, hqa⟩ := hmem hf' (hl' ▸ List.mem_cons_self)
    exact h p hp q hq hpa hqa

/-- A batch and a single request agree on an address, however the database answers, exactly when it has
one way to. -/
theorem settled_iff {addresses : List Text} (hin : address ∈ addresses) :
    Settled env src db address ↔ ∀ f : Fetched, f.Valid db →
      identityFrom env (f.within env addresses) src address = identityFrom env f src address := by
  constructor
  · intro h f hf
    refine identityFrom_eq.mpr ⟨profileFor_eq h.profile (hf.within_profile hin) (hf.profile address), ?_⟩
    exact fun c hc key hkey => (h.names c hc key hkey).read_eq (hf.within_owned hin hkey) (hf.owned key)
  · intro h
    have hbase := fetchedSorted_valid db
    refine ⟨?_, ?_⟩
    · -- the row a single request reads first is any row of the address
      have hfirst {p : ProfileRow} (hp : p ∈ db.profiles) (haddress : p.address = address) :
          profileFor env ((fetchedSorted db).within env addresses) address = cleanProfile env p := by
        have hrow : p ∈ db.profiles.filter (·.address = address) :=
          List.mem_filter.mpr ⟨hp, decide_eq_true haddress⟩
        obtain ⟨a, b, hsplit⟩ := List.append_of_mem hrow
        let first : Fetched := { fetchedSorted db with
          profile := Function.update (fetchedSorted db).profile address (p :: (a ++ b)) }
        have hvalid : first.Valid db :=
          { hbase with
            profile := fun other => by
              by_cases hother : other = address
              · subst hother
                simp only [first, Function.update_self]
                rw [hsplit]
                exact List.perm_middle.symm
              · simp only [first, Function.update_of_ne hother]
                exact hbase.profile other }
        have heq := (identityFrom_eq.mp (h first hvalid)).1
        have hread : profileFor env first address = cleanProfile env p := by
          simp only [profileFor, first, Function.update_self, List.head?_cons, Option.bind_some]
        exact heq.trans hread
      exact fun p hp q hq hpa hqa => (hfirst hp hpa).symm.trans (hfirst hq hqa)
    · intro c hc key hkey
      have hread {l : List StoredUtxo} (hl : Ordered createdKey (db.utxos.filter (ownedBy key)) l) :
          (((fetchedSorted db).within env addresses).owned key).filterMap (heldName c) =
            l.filterMap (heldName c) := by
        let answer : Fetched := { fetchedSorted db with
          owned := Function.update (fetchedSorted db).owned key l }
        have hvalid : answer.Valid db :=
          { hbase with
            owned := fun other => by
              by_cases hother : other = key
              · subst hother
                simp only [answer, Function.update_self]
                exact hl
              · simp only [answer, Function.update_of_ne hother]
                exact hbase.owned other }
        have heq := (identityFrom_eq.mp (h answer hvalid)).2 c hc key hkey
        rw [show answer.owned key = l from Function.update_self ..] at heq
        exact heq
      exact untied_iff.mpr fun l l' hl hl' => (hread hl).symm.trans (hread hl')

/-- A batch gives each of its strings what a single request gives, however the database answers, exactly
when the database has one way to answer for each of its addresses. -/
theorem batch_exact {body : List Text} (hlen : body.length ≤ maxBatch) :
    (∀ f : Fetched, f.Valid db → ∃ found, identityBatch env f src body = .ok found ∧ ∀ raw, found raw =
      if raw ∈ body then (normalizeAddress env raw).map (identityFrom env f src) else none) ↔
    ∀ raw ∈ body, ∀ address, normalizeAddress env raw = some address → Settled env src db address := by
  constructor
  · intro h raw hraw address haddress
    refine (settled_iff (List.mem_dedup.mpr (mem_asked hraw haddress))).mpr fun f hf => ?_
    obtain ⟨found, hfound, hgives⟩ := h f hf
    rw [identityBatch_eq hlen] at hfound
    have heq := hgives raw
    rw [← Except.ok.inj hfound] at heq
    simp only [if_pos hraw, haddress, Option.map_some, Option.some.injEq] at heq
    exact heq
  · intro h f hf
    refine ⟨_, identityBatch_eq hlen, fun raw => ?_⟩
    by_cases hraw : raw ∈ body
    · simp only [if_pos hraw]
      cases haddress : normalizeAddress env raw with
      | none => rfl
      | some address =>
        have hin : address ∈ (asked env body).dedup := List.mem_dedup.mpr (mem_asked hraw haddress)
        exact congrArg some ((settled_iff hin).mp (h raw hraw address haddress) f hf)
    · simp only [if_neg hraw]

end

/-- The address of the key of ones. -/
def sampleAddress : Text := "kaspa:qqqszqgpqyqszqgpqyqszqgpqyqszqgpqyqszqgpqyqszqgpqyqszu8g5qjdh".toList

def sampleEnv : IdentityEnv where
  names := NamesSample.env
  tryFrom t := if t = sampleAddress then some ⟨t, true, List.replicate 32 1⟩ else none

def sampleCtx : Ctx := ⟨10, 20, 30⟩

/-- A name of the key of ones, registered at the DAA score 7. -/
def sampleName (n : UInt8) (name : String) : StoredUtxo where
  outpoint := (List.Vector.replicate 32 n, 0)
  tracked := .name ⟨List.Vector.replicate 32 n, padName (ascii name), List.Vector.replicate 32 1, 5, 0, 100⟩
  createdDaa := 7
  refuted := false

def sampleDb : IdentityDb where
  utxos := [sampleName 1 "a"]
  profiles := []
  outpoints := by decide
  spks := by decide

/-- Two names that one key registered in one block. -/
def tiedDb : IdentityDb where
  utxos := [sampleName 1 "a", sampleName 2 "b"]
  profiles := []
  outpoints := by decide
  spks := by decide

/-- One name, asked for twice and with a blank around it, beside a string that is no address. -/
theorem one_name_batch : [sampleAddress, ' ' :: sampleAddress, sampleAddress, []].length ≤ maxBatch ∧
    ∀ f : Fetched, f.Valid sampleDb → ∃ found,
      identityBatch sampleEnv f (.registry sampleCtx) [sampleAddress, ' ' :: sampleAddress, sampleAddress, []] =
        .ok found ∧
      ∀ raw, found raw = if raw ∈ [sampleAddress, ' ' :: sampleAddress, sampleAddress, []] then
        (normalizeAddress sampleEnv raw).map (identityFrom sampleEnv f (.registry sampleCtx)) else none := by
  have hsettled : ∀ address, Settled sampleEnv (.registry sampleCtx) sampleDb address := by
    intro address
    refine ⟨nofun, fun c _ key _ a ha b hb _ x hx y hy => ?_⟩
    have honly {u : StoredUtxo} (hu : u ∈ sampleDb.utxos.filter (ownedBy key)) : u = sampleName 1 "a" :=
      List.mem_singleton.mp (List.mem_of_mem_filter hu)
    rw [honly ha] at hx
    rw [honly hb] at hy
    exact Option.some.inj (hx.symm.trans hy)
  exact ⟨by decide, (batch_exact (by decide)).mpr fun _ _ address _ => hsettled address⟩

/-- The batch's query and the single request's answer with the two names in either order. -/
def tiedFetched : Fetched where
  owned key := (tiedDb.utxos.filter (ownedBy key)).reverse
  profile _ := []
  ownedAny keys := tiedDb.utxos.filter (ownedByAny keys)
  profileAny _ := []

theorem tied_ordered {p : StoredUtxo → Bool} {l : List StoredUtxo} (h : l.Perm (tiedDb.utxos.filter p)) :
    Ordered createdKey (tiedDb.utxos.filter p) l := by
  have hkey : ∀ u ∈ tiedDb.utxos, createdKey u = 7 := by decide
  have hl {u : StoredUtxo} (hu : u ∈ l) : createdKey u = 7 :=
    hkey u (List.mem_of_mem_filter (h.mem_iff.mp hu))
  exact ⟨h, List.pairwise_of_forall_mem_list fun a ha b hb => ((hl ha).trans (hl hb).symm).le⟩

theorem tiedFetched_valid : tiedFetched.Valid tiedDb where
  owned _ := tied_ordered (List.reverse_perm _)
  profile _ := .refl _
  ownedAny _ := tied_ordered (.refl _)
  profileAny _ := .refl _

/-- The two names of one block come in another order, and the label is another name. -/
theorem tied_names_differ : ¬∀ f : Fetched, f.Valid tiedDb → ∃ found,
    identityBatch sampleEnv f (.registry sampleCtx) [sampleAddress] = .ok found ∧
    ∀ raw, found raw = if raw ∈ [sampleAddress] then
      (normalizeAddress sampleEnv raw).map (identityFrom sampleEnv f (.registry sampleCtx)) else none := by
  intro h
  obtain ⟨found, hfound, hgives⟩ := h tiedFetched tiedFetched_valid
  have hlabel := congrArg (Option.map Identity.label) (hgives sampleAddress)
  rw [← Except.ok.inj hfound] at hlabel
  revert hlabel
  decide +kernel

end KaChatIndexer.NamesIdentities
