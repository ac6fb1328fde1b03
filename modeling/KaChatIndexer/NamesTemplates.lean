import KaChatIndexer.NamesTransition

/-!
# Contract templates

The manifest's redeem layouts and rules for one registry. Registry v2 has gap, name and offer
templates and pinned tags; v3 adds covenant ids, a price template and per-contract tags; v4 and
v5 are v3 without the price record.
-/
namespace KaChatIndexer.NamesTemplates
open ByteStrings NamesState NamesEnv NamesTransition

/-- `redeem = prefix ‖ state ‖ suffix`; `stateLen` tells the offer layouts apart. -/
structure ContractTemplate where
  redeemPrefix : Bytes
  suffix : Bytes
  stateLen : ℕ
  deriving DecidableEq

def ContractTemplate.redeem (c : ContractTemplate) (state : Bytes) : Bytes :=
  c.redeemPrefix ++ state ++ c.suffix

def ContractTemplate.spk (env : Env) (c : ContractTemplate) (state : Bytes) : Bytes :=
  p2shScript env (c.redeem state)

/-- The entry a manifest `dispatchTags` key names, for the contract that holds it. -/
def Entry.fromManifestName : Contract → String → Option Entry
  | .gap, "register" => some .gapRegister
  | .gap, "import" => some .gapImport
  | .gap, "merge" => some .gapMerge
  | .gap, "absorbed" => some .gapAbsorbed
  | .name, "transfer" => some .nameTransfer
  | .name, "list" => some .nameList
  | .name, "buy" => some .nameBuy
  | .name, "renew" => some .nameRenew
  | .name, "extend" => some .nameExtend
  | .name, "release" => some .nameRelease
  | .name, "reclaim" => some .nameReclaim
  | .offer, "accept" => some .offerAccept
  | .offer, "withdraw" => some .offerWithdraw
  | .offer, "refund" => some .offerRefund
  | .offer, "decline" => some .offerDecline
  | .price, "use" => some .priceUse
  | .price, "update" => some .priceUpdate
  | .price, "follow" => some .priceFollow
  | _, _ => none

theorem fromManifestName_contract {c : Contract} {s : String} {e : Entry}
    (h : Entry.fromManifestName c s = some e) : e.contract = c := by
  unfold Entry.fromManifestName at h
  split at h <;> first | cases h; rfl | cases h

/-- The templates and rules of one registry. Tags are read per contract through
`Entry.fromManifestName`, so a tag's entry always belongs to its contract. -/
structure Templates where
  gap : ContractTemplate
  name : ContractTemplate
  offer : ContractTemplate
  price : Option ContractTemplate
  tags : List (Contract × Tag × Entry)
  periodMs : Int64
  registryId : Option Bytes32
  priceId : Option Bytes32
  tags_contract : ∀ c ∈ tags, c.2.2.contract = c.1

/-- Registry v2 templates with the pinned tags and a one-year period. -/
def Templates.v2 (gap name offer : ContractTemplate) : Templates where
  gap := gap
  name := name
  offer := offer
  price := none
  tags := []
  periodMs := yearMs
  registryId := none
  priceId := none
  tags_contract := by simp

/-- The entry a spend of `contract` with this dispatch tag calls. -/
def Templates.entry (t : Templates) (contract : Contract) (tag : Tag) : Option Entry :=
  if t.tags = [] then (entryForTag tag).filter fun e => e.contract = contract
  else (t.tags.find? fun (c, g, _) => c = contract ∧ g = tag).map fun (_, _, e) => e

theorem entry_contract {t : Templates} {c : Contract} {tag : Tag} {e : Entry}
    (h : t.entry c tag = some e) : e.contract = c := by
  unfold Templates.entry at h
  split at h
  · simpa using (Option.filter_eq_some_iff.mp h).2
  · obtain ⟨⟨c', g, e'⟩, hfind, rfl⟩ := Option.map_eq_some_iff.mp h
    have hc : c' = c ∧ g = tag := by simpa using List.find?_some hfind
    have hmem := t.tags_contract _ (List.mem_of_find?_eq_some hfind)
    exact hmem.trans hc.1

variable (env : Env)

def Templates.gapSpk (t : Templates) (s : GapState) : Bytes := t.gap.spk env s.encode
def Templates.nameSpk (t : Templates) (s : NameState) : Bytes := t.name.spk env s.encode
def Templates.offerSpk (t : Templates) (s : OfferState) : Bytes := t.offer.spk env s.encode

/-- A shard's script (v3 only; empty otherwise). -/
def Templates.priceSpk (t : Templates) (s : PriceState) : Bytes :=
  match t.price with
  | some p => p.spk env s.encode
  | none => []

/-- The script of any tracked UTXO. -/
def Templates.trackedSpk (t : Templates) : Tracked → Bytes
  | .gap g => t.gapSpk env g
  | .name n => t.nameSpk env n
  | .offer o => t.offerSpk env o
  | .shard p => t.priceSpk env p

end KaChatIndexer.NamesTemplates
