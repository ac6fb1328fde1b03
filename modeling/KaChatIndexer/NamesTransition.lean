import KaChatIndexer.NamesEnv

/-!
# Registry transitions

Contract entries with their dispatch tags, and the pure functions that derive the state a spend
produces from the old state and the entry's arguments.
-/
namespace KaChatIndexer.NamesTransition
open ByteStrings NamesState NamesEnv

def yearMs : Int64 := 31536000000

inductive Contract | gap | name | offer | price
  deriving DecidableEq

inductive Entry
  | gapRegister | gapImport | gapMerge | gapAbsorbed
  | nameTransfer | nameList | nameBuy | nameRenew | nameExtend | nameRelease | nameReclaim
  | offerAccept | offerWithdraw | offerRefund | offerDecline
  | priceUse | priceUpdate | priceFollow
  deriving DecidableEq

def Entry.contract : Entry → Contract
  | .gapRegister | .gapImport | .gapMerge | .gapAbsorbed => .gap
  | .nameTransfer | .nameList | .nameBuy | .nameRenew | .nameExtend | .nameRelease
  | .nameReclaim => .name
  | .offerAccept | .offerWithdraw | .offerRefund | .offerDecline => .offer
  | .priceUse | .priceUpdate | .priceFollow => .price

def trackedContract : Tracked → Contract
  | .gap _ => .gap
  | .name _ => .name
  | .offer _ => .offer
  | .shard _ => .price

/-- The registry v2 dispatch tags, the fallback for a manifest without `dispatchTags`. -/
def entryForTag (tag : Tag) : Option Entry :=
  match tag.toList with
  | [0x86, 0x67, 0xaf, 0x5e] => some .gapRegister
  | [0x63, 0xd2, 0x5b, 0xc2] => some .gapMerge
  | [0xda, 0xb7, 0x63, 0x55] => some .gapAbsorbed
  | [0x79, 0x4d, 0xca, 0x54] => some .nameTransfer
  | [0x67, 0x4a, 0x8e, 0xa4] => some .nameList
  | [0x76, 0xa0, 0x2e, 0xb9] => some .nameBuy
  | [0xb7, 0x06, 0xac, 0x38] => some .nameRenew
  | [0x2c, 0xe7, 0xcc, 0xeb] => some .nameExtend
  | [0x38, 0x8a, 0xd0, 0xb4] => some .nameRelease
  | [0xf5, 0x6a, 0xf4, 0xdf] => some .nameReclaim
  | [0x9d, 0x40, 0x43, 0xb4] => some .offerAccept
  | [0x80, 0x34, 0x4f, 0xf1] => some .offerWithdraw
  | [0x77, 0x7f, 0x5b, 0x11] => some .offerRefund
  | _ => none

variable (env : Env)

def registerWithPeriod (gap : GapState) (name : Bytes) (ownerKey : Bytes32)
    (nowMs years periodMs : Int64) : GapState × GapState × NameState :=
  let key := nameKey env name
  (⟨gap.lo, key⟩, ⟨key, gap.hi⟩,
    { key, name := padName name, owner := ownerKey, price := 0, periodStart := nowMs,
      expiresAt := nowMs + years * periodMs })

def importName (gap : GapState) (name : Bytes) (ownerKey : Bytes32)
    (periodStart expiresAt : Int64) : GapState × GapState × NameState :=
  let key := nameKey env name
  (⟨gap.lo, key⟩, ⟨key, gap.hi⟩,
    { key, name := padName name, owner := ownerKey, price := 0, periodStart, expiresAt })

def nameTransfer (name : NameState) (newOwner : Bytes32) : NameState :=
  { name with owner := newOwner, price := 0 }

def nameList (name : NameState) (price : Int64) : NameState := { name with price }

/-- A new paid period from the old expiry on, even in grace. -/
def nameRenewWithPeriod (name : NameState) (years periodMs : Int64) : NameState :=
  { name with periodStart := name.expiresAt, expiresAt := name.expiresAt + years * periodMs }

def nameExtendWithPeriod (name : NameState) (years periodMs : Int64) : NameState :=
  { name with expiresAt := name.expiresAt + years * periodMs }

def offerAccept (name : NameState) (offer : OfferState) : NameState :=
  { name with owner := offer.buyer, price := 0 }

def mergeGaps (loGap hiGap : GapState) : GapState := ⟨loGap.lo, hiGap.hi⟩

end KaChatIndexer.NamesTransition
