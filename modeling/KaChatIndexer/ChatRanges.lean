import KaChatIndexer.ChatKeys

/-!
# Ranges of keys

The iterators over the messages of one sender, receiver, alias, tag, scope or group from a block time
on. Each asks the store for the keys between two byte strings.
-/
namespace KaChatIndexer.ChatRanges
open ByteStrings ChatPayload ChatRows ChatReads ChatKeys OrderedKeys

/-! ## The store -/

section
variable {κ ν : Type}

/-- What a partition can hold: keys whose fields are of their types' lengths, with times before the
last one. -/
structure Stored (layout : Layout κ) (ν : Type) where
  rows : Partition κ ν
  fits : ∀ row ∈ rows, layout.Fits row.1
  before : ∀ row ∈ rows, layout.time row.1 < lastTime

/-- The rows in the order of their keys' bytes. -/
def byteOrder (layout : Layout κ) (p : Partition κ ν) : Partition κ ν :=
  p.insertionSort fun a b =>
    ordinals (layout.asBytes a.1) ≤ ordinals (layout.asBytes b.1)

def row (layout : Layout κ) (r : κ × ν) : Bytes × ν := (layout.asBytes r.1, r.2)

/-- The partition as the store has it. -/
def Stored.disk {layout : Layout κ} (p : Stored layout ν) : Partition Bytes ν :=
  (byteOrder layout p.rows).map (row layout)

/-- `rtx.range(start..=stop)`. -/
def rangeRows (disk : Partition Bytes ν) (bounds : Bytes × Bytes) : Partition Bytes ν :=
  disk.filter fun r =>
    ordinals bounds.1 ≤ ordinals r.1 ∧ ordinals r.1 ≤ ordinals bounds.2

/-- The rows of some keys from a time on, each once and in the order of their times. -/
def Yields {layout : Layout κ} (p : Stored layout ν) (within : κ → Prop) [DecidablePred within]
    (start : ℕ) (result : Partition Bytes ν) : Prop :=
  ∃ found : Partition κ ν, result = found.map (row layout) ∧
    found.Perm (p.rows.filter fun r => within r.1 ∧ start ≤ layout.time r.1) ∧
    found.Pairwise fun a b => layout.time a.1 ≤ layout.time b.1

end

/-! ## The iterators -/

/-- `buffer[lo..hi].copy_from_slice(source)`. -/
def copyFromSlice (buffer : Bytes) (lo hi : ℕ) (source : Bytes) : Bytes :=
  buffer.take lo ++ (source ++ buffer.drop hi)

/-- The bounds of a range of keys that start with one address. -/
def addressBounds (address : AddressPayload) (blockTime : UInt64) : Bytes × Bytes :=
  let start := List.replicate 42 0
  let start := copyFromSlice start 0 34 (addressBytes address)
  let start := copyFromSlice start 34 42 (u64be blockTime.toNat)
  let stop := copyFromSlice (List.replicate 42 0xff) 0 34 (addressBytes address)
  (start, stop)

namespace Handshake

def iterBySenderFromBlockTime (disk : Partition Bytes Unit) (sender : AddressPayload)
    (blockTime : UInt64) : Partition Bytes Unit :=
  rangeRows disk (addressBounds sender blockTime)

def iterByReceiverFromBlockTime (disk : Partition Bytes AddressPayload) (receiver : AddressPayload)
    (blockTime : UInt64) : Partition Bytes AddressPayload :=
  rangeRows disk (addressBounds receiver blockTime)

end Handshake

namespace Payment

def getBySenderFromBlockTime (disk : Partition Bytes Unit) (sender : AddressPayload)
    (fromBlockTime : UInt64) : Partition Bytes Unit :=
  rangeRows disk (addressBounds sender fromBlockTime)

def getByReceiverFromBlockTime (disk : Partition Bytes AddressPayload) (receiver : AddressPayload)
    (fromBlockTime : UInt64) : Partition Bytes AddressPayload :=
  rangeRows disk (addressBounds receiver fromBlockTime)

end Payment

namespace GroupControl

def getByRecipientFromBlockTime (disk : Partition Bytes AddressPayload) (recipient : AddressPayload)
    (fromBlockTime : UInt64) : Partition Bytes AddressPayload :=
  rangeRows disk (addressBounds recipient fromBlockTime)

def getBySenderFromBlockTime (disk : Partition Bytes Unit) (sender : AddressPayload)
    (fromBlockTime : UInt64) : Partition Bytes Unit :=
  rangeRows disk (addressBounds sender fromBlockTime)

end GroupControl

namespace ContextualMessage

def getBySenderAliasFromBlockTime (disk : Partition Bytes Unit) (sender : AddressPayload)
    (aliasBytes : List.Vector UInt8 16) (fromBlockTime : UInt64) : Partition Bytes Unit :=
  let rangeStart := List.replicate 58 0
  let rangeStart := copyFromSlice rangeStart 0 34 (addressBytes sender)
  let rangeStart := copyFromSlice rangeStart 34 50 aliasBytes.toList
  let rangeStart := copyFromSlice rangeStart 50 58 (u64be fromBlockTime.toNat)
  let rangeEnd := List.replicate 58 0xff
  let rangeEnd := copyFromSlice rangeEnd 0 34 (addressBytes sender)
  let rangeEnd := copyFromSlice rangeEnd 34 50 aliasBytes.toList
  rangeRows disk (rangeStart, rangeEnd)

def inboxTagLen : ℕ := 16

def iterByTagFromBlockTime (disk : Partition Bytes AddressPayload)
    (inboxTag : List.Vector UInt8 16) (fromBlockTime : UInt64) : Partition Bytes AddressPayload :=
  let start := List.replicate (inboxTagLen + 8) 0
  let start := copyFromSlice start 0 inboxTagLen inboxTag.toList
  let start := copyFromSlice start inboxTagLen (inboxTagLen + 8) (u64be fromBlockTime.toNat)
  let stop := copyFromSlice (List.replicate (inboxTagLen + 8) 0xff) 0 inboxTagLen inboxTag.toList
  rangeRows disk (start, stop)

end ContextualMessage

namespace SelfStash

def scopeLen : ℕ := 255

def ownerLen : ℕ := 34

def prefixLen : ℕ := ownerLen + scopeLen + 8

def iterByOwnerAndScopeFromBlockTime (disk : Partition Bytes Unit) (scope : Bytes)
    (owner : AddressPayload) (blockTime : UInt64) : Partition Bytes Unit :=
  let scopeBytes := padded scopeLen scope
  let rangeStart := List.replicate prefixLen 0
  let rangeStart := copyFromSlice rangeStart 0 ownerLen (addressBytes owner)
  let rangeStart := copyFromSlice rangeStart ownerLen (ownerLen + scopeLen) scopeBytes
  let rangeStart :=
    copyFromSlice rangeStart (ownerLen + scopeLen) prefixLen (u64be blockTime.toNat)
  let rangeEnd := List.replicate prefixLen 0xff
  let rangeEnd := copyFromSlice rangeEnd 0 ownerLen (addressBytes owner)
  let rangeEnd := copyFromSlice rangeEnd ownerLen (ownerLen + scopeLen) scopeBytes
  rangeRows disk (rangeStart, rangeEnd)

end SelfStash

namespace GroupMessage

def blindedGroupIdLen : ℕ := 32

def prefixLen : ℕ := blindedGroupIdLen + 8

def iterByBlindedGroupIdFromBlockTime (disk : Partition Bytes AddressPayload)
    (blindedGroupId : List.Vector UInt8 32) (blockTime : UInt64) : Partition Bytes AddressPayload :=
  let rangeStart := List.replicate prefixLen 0
  let rangeStart := copyFromSlice rangeStart 0 blindedGroupIdLen blindedGroupId.toList
  let rangeStart := copyFromSlice rangeStart blindedGroupIdLen prefixLen (u64be blockTime.toNat)
  let rangeEnd := copyFromSlice (List.replicate prefixLen 0xff) 0 blindedGroupIdLen
    blindedGroupId.toList
  rangeRows disk (rangeStart, rangeEnd)

end GroupMessage

/-! ## Bounds -/

/-- The fields with the digits of a time after them, and with the last digits. -/
def boundsOf (lead : Bytes) (blockTime : UInt64) : Bytes × Bytes :=
  (lead ++ u64be blockTime.toNat, lead ++ List.replicate 8 0xff)

section
variable {size lo hi m k : ℕ} {source done : Bytes}

/-- The first slice of a fresh buffer. -/
theorem copy_first (c : UInt8) (hsize : size = hi + m) :
    copyFromSlice (List.replicate size c) 0 hi source = source ++ List.replicate m c := by
  simp [copyFromSlice, hsize]

/-- The slice after what is filled already. -/
theorem copy_next (c : UInt8) (hdone : done.length = lo) (hsource : lo + source.length = hi)
    (hm : m = source.length + k) :
    copyFromSlice (done ++ List.replicate m c) lo hi source =
      done ++ source ++ List.replicate k c := by
  subst hdone hsource hm
  simp [copyFromSlice, List.drop_append]

end

theorem addressBounds_eq (address : AddressPayload) (blockTime : UInt64) :
    addressBounds address blockTime = boundsOf (addressBytes address) blockTime := by
  have haddress := length_addressBytes address
  rw [addressBounds, copy_first (m := 8) 0 rfl, copy_first (m := 8) 0xff rfl,
    copy_next (k := 0) 0 haddress (by simp) (by simp)]
  simp [boundsOf]

theorem sender_alias_bounds (disk : Partition Bytes Unit) (sender : AddressPayload)
    (aliasBytes : List.Vector UInt8 16) (blockTime : UInt64) :
    ContextualMessage.getBySenderAliasFromBlockTime disk sender aliasBytes blockTime =
      rangeRows disk (boundsOf (addressBytes sender ++ aliasBytes.toList) blockTime) := by
  have hsender := length_addressBytes sender
  rw [ContextualMessage.getBySenderAliasFromBlockTime, copy_first (m := 24) 0 rfl,
    copy_first (m := 24) 0xff rfl, copy_next (k := 8) 0 hsender (by simp) (by simp),
    copy_next (k := 8) 0xff hsender (by simp) (by simp),
    copy_next (k := 0) 0 (by simp) (by simp) (by simp)]
  simp [boundsOf]

theorem tag_bounds (disk : Partition Bytes AddressPayload) (inboxTag : List.Vector UInt8 16)
    (blockTime : UInt64) :
    ContextualMessage.iterByTagFromBlockTime disk inboxTag blockTime =
      rangeRows disk (boundsOf inboxTag.toList blockTime) := by
  have htag : inboxTag.toList.length = ContextualMessage.inboxTagLen := inboxTag.toList_length
  rw [ContextualMessage.iterByTagFromBlockTime, copy_first (m := 8) 0 rfl,
    copy_first (m := 8) 0xff rfl, copy_next (k := 0) 0 htag (by simp) (by simp)]
  simp [boundsOf]

theorem scope_bounds (disk : Partition Bytes Unit) (scope : Bytes) (owner : AddressPayload)
    (blockTime : UInt64) :
    SelfStash.iterByOwnerAndScopeFromBlockTime disk scope owner blockTime =
      rangeRows disk (boundsOf (addressBytes owner ++ padded 255 scope) blockTime) := by
  have howner : (addressBytes owner).length = SelfStash.ownerLen := length_addressBytes owner
  have hscope : (padded SelfStash.scopeLen scope).length = SelfStash.scopeLen := length_padded _ _
  have hboth : (addressBytes owner ++ padded SelfStash.scopeLen scope).length =
      SelfStash.ownerLen + SelfStash.scopeLen := by
    rw [List.length_append, howner, hscope]
  have hfirst : SelfStash.prefixLen = SelfStash.ownerLen + (SelfStash.scopeLen + 8) := rfl
  rw [SelfStash.iterByOwnerAndScopeFromBlockTime, copy_first 0 hfirst,
    copy_first 0xff hfirst, copy_next (k := 8) 0 howner (by rw [hscope]) (by rw [hscope]),
    copy_next (k := 8) 0xff howner (by rw [hscope]) (by rw [hscope]),
    copy_next (k := 0) 0 hboth (by rw [length_u64be, SelfStash.prefixLen]) (by rw [length_u64be])]
  rw [boundsOf, List.replicate_zero, List.append_nil]
  rfl

theorem group_bounds (disk : Partition Bytes AddressPayload)
    (blindedGroupId : List.Vector UInt8 32) (blockTime : UInt64) :
    GroupMessage.iterByBlindedGroupIdFromBlockTime disk blindedGroupId blockTime =
      rangeRows disk (boundsOf blindedGroupId.toList blockTime) := by
  have hid : blindedGroupId.toList.length = GroupMessage.blindedGroupIdLen :=
    blindedGroupId.toList_length
  have hfirst : GroupMessage.prefixLen = GroupMessage.blindedGroupIdLen + 8 := rfl
  rw [GroupMessage.iterByBlindedGroupIdFromBlockTime, copy_first 0 hfirst, copy_first 0xff hfirst,
    copy_next (k := 0) 0 hid (by rw [length_u64be, GroupMessage.prefixLen]) (by simp)]
  simp [boundsOf]

/-! ## What a range holds -/

theorem ordinals_append (a b : Bytes) : ordinals (a ++ b) = ordinals a ++ ordinals b :=
  List.map_append

theorem ordinals_inj {a b : Bytes} : ordinals a = ordinals b ↔ a = b :=
  (List.map_injective_iff.mpr fun _ _ h => UInt8.toNat_inj.mp h).eq_iff

theorem length_ordinals (b : Bytes) : (ordinals b).length = b.length := List.length_map _

theorem ordinals_last : ordinals (List.replicate 8 0xff) = bigEndian 256 8 lastTime := by
  rw [show lastTime = 256 ^ 8 - 1 from rfl, bigEndian_last (by decide)]
  rfl

section
variable {κ ν : Type} {layout : Layout κ}

theorem ordinals_asBytes (k : κ) :
    ordinals (layout.asBytes k) = ordinals (layout.leadBytes k) ++
      (bigEndian 256 8 (layout.time k) ++ ordinals (layout.restBytes k)) := by
  rw [Layout.asBytes, ordinals_append, ordinals_append, ordinals_u64be]

/-- The keys between the bounds have the leading fields, and a time that is late enough. -/
theorem within_bounds {k : κ} (hfits : layout.Fits k) (hbefore : layout.time k < lastTime)
    {lead : Bytes} (hlead : lead.length = layout.leadSizes.sum) (t : UInt64) :
    (ordinals (boundsOf lead t).1 ≤ ordinals (layout.asBytes k) ∧
      ordinals (layout.asBytes k) ≤ ordinals (boundsOf lead t).2) ↔
    layout.leadBytes k = lead ∧ t.toNat ≤ layout.time k := by
  have hsame : (ordinals (layout.leadBytes k)).length = (ordinals lead).length := by
    rw [length_ordinals, length_ordinals, Layout.length_leadBytes hfits, hlead]
  have htime : layout.time k < 256 ^ 8 := layout.time_lt hfits
  have hstart : t.toNat < 256 ^ 8 := t.toNat_lt
  have hlast : lastTime < 256 ^ 8 := by decide
  rw [boundsOf, ordinals_append, ordinals_append, ordinals_u64be, ordinals_last, ordinals_asBytes,
    between_iff hsame (by simp) (by simp), ordinals_inj, bigEndian_le_iff hstart htime]
  have hearly : bigEndian 256 8 (layout.time k) < bigEndian 256 8 lastTime :=
    bigEndian_lt hbefore hlast
  simp [hearly]

/-- Under the same leading fields the order of the bytes is the order of the times. -/
theorem time_le {k k' : κ} (hfits : layout.Fits k) (hfits' : layout.Fits k')
    (hlead : layout.leadBytes k = layout.leadBytes k')
    (hle : ordinals (layout.asBytes k) ≤ ordinals (layout.asBytes k')) :
    layout.time k ≤ layout.time k' := by
  have htime : layout.time k < 256 ^ 8 := layout.time_lt hfits
  have htime' : layout.time k' < 256 ^ 8 := layout.time_lt hfits'
  rw [ordinals_asBytes, ordinals_asBytes, hlead, append_right_le,
    append_le_append (by simp)] at hle
  rcases hle with hlt | ⟨heq, -⟩
  · exact (bigEndian_le_iff htime htime').mp hlt.le
  · exact (bigEndian_inj htime htime' heq).le

/-- A range holds the rows under its leading fields. -/
theorem range_yields (p : Stored layout ν) {lead : Bytes}
    (hlead : lead.length = layout.leadSizes.sum) (t : UInt64) {within : κ → Prop}
    [DecidablePred within] (hwithin : ∀ k, layout.Fits k → (layout.leadBytes k = lead ↔ within k)) :
    Yields p within t.toNat (rangeRows p.disk (boundsOf lead t)) := by
  have hmem : ∀ r ∈ byteOrder layout p.rows, r ∈ p.rows := fun r hr =>
    (List.perm_insertionSort _ _).mem_iff.mp hr
  refine ⟨(byteOrder layout p.rows).filter fun r => within r.1 ∧ t.toNat ≤ layout.time r.1,
    ?_, (List.perm_insertionSort _ _).filter _, ?_⟩
  · rw [rangeRows, Stored.disk, List.filter_map]
    refine congrArg _ (List.filter_congr fun r hr => ?_)
    have hiff := within_bounds (p.fits r (hmem r hr)) (p.before r (hmem r hr)) hlead t
    rw [hwithin r.1 (p.fits r (hmem r hr))] at hiff
    exact decide_eq_decide.mpr hiff
  · have hsorted : (byteOrder layout p.rows).Pairwise fun a b =>
        ordinals (layout.asBytes a.1) ≤ ordinals (layout.asBytes b.1) :=
      List.pairwise_insertionSort _ _
    refine (hsorted.filter _).imp_of_mem fun {a b} ha hb hle => ?_
    obtain ⟨ha, hawithin⟩ := List.mem_filter.mp ha
    obtain ⟨hb, hbwithin⟩ := List.mem_filter.mp hb
    have hafits := p.fits a (hmem a ha)
    have hbfits := p.fits b (hmem b hb)
    have hleada := (hwithin a.1 hafits).mpr (of_decide_eq_true hawithin).1
    have hleadb := (hwithin b.1 hbfits).mpr (of_decide_eq_true hbwithin).1
    exact time_le hafits hbfits (hleada.trans hleadb.symm) hle

end

/-! ## The rows that reads go through -/

/-- The order that the reads put rows in is that of the bytes. -/
theorem keyOrder_iff {κ : Type} {layout : Layout κ} {k k' : κ} (hfits : layout.Fits k)
    (hfits' : layout.Fits k') (hlead : layout.leadBytes k = layout.leadBytes k') :
    ordinals (layout.asBytes k) ≤ ordinals (layout.asBytes k') ↔
      keyOrder (layout.time k) ((layout.rest k).map ordinals) ≤
        keyOrder (layout.time k') ((layout.rest k').map ordinals) := by
  have htime : layout.time k < 256 ^ 8 := layout.time_lt hfits
  have htime' : layout.time k' < 256 ^ 8 := layout.time_lt hfits'
  have hsizes : ((layout.rest k).map ordinals).map List.length =
      ((layout.rest k').map ordinals).map List.length := by
    have hmap : ∀ l : List Bytes, (l.map ordinals).map List.length = l.map List.length := by
      simp [ordinals]
    rw [hmap, hmap, layout.rest_sizes hfits, layout.rest_sizes hfits']
  have hflat : ∀ k, ordinals (layout.restBytes k) = ((layout.rest k).map ordinals).flatten := by
    intro k
    rw [Layout.restBytes, ordinals, List.map_flatten]
    rfl
  have hless : bigEndian 256 8 (layout.time k) < bigEndian 256 8 (layout.time k') ↔
      layout.time k < layout.time k' := by
    rw [← not_le, bigEndian_le_iff htime' htime, not_le]
  have hsame : bigEndian 256 8 (layout.time k) = bigEndian 256 8 (layout.time k') ↔
      layout.time k = layout.time k' :=
    ⟨bigEndian_inj htime htime', fun h => by rw [h]⟩
  rw [ordinals_asBytes, ordinals_asBytes, hlead, append_right_le, append_le_append (by simp),
    hflat, hflat, flatten_le_flatten hsizes, hless, hsame, keyOrder, keyOrder, cons_le_cons,
    cons_lt_cons]
  simp

/-- A range is what a read goes through. -/
theorem range_eq {κ ν : Type} [DecidableEq κ] {layout : Layout κ} (p : Stored layout ν)
    (hnodup : (keys p.rows).Nodup) {lead : Bytes} (hlead : lead.length = layout.leadSizes.sum)
    (t : UInt64) {within : κ → Bool}
    (hwithin : ∀ k, layout.Fits k → (layout.leadBytes k = lead ↔ within k = true))
    {fields : κ → List (List ℕ)}
    (hfields : ∀ k, layout.Fits k → fields k = (layout.rest k).map ordinals) :
    rangeRows p.disk (boundsOf lead t) =
      (range layout.time (ordered within layout.time fields p.rows) t.toNat).map (row layout) := by
  have hmem : ∀ r ∈ byteOrder layout p.rows, r ∈ p.rows := fun r hr =>
    (List.perm_insertionSort _ _).mem_iff.mp hr
  have hordered : ∀ r ∈ ordered within layout.time fields p.rows,
      r ∈ p.rows ∧ within r.1 = true := fun r hr =>
    List.mem_filter.mp ((List.perm_insertionSort _ _).mem_iff.mp hr)
  have hbounds : rangeRows p.disk (boundsOf lead t) =
      (range layout.time ((byteOrder layout p.rows).filter fun r => within r.1) t.toNat).map
        (row layout) := by
    rw [rangeRows, Stored.disk, List.filter_map, range, List.filter_filter]
    refine congrArg _ (List.filter_congr fun r hr => ?_)
    have hbefore := p.before r (hmem r hr)
    have hiff := within_bounds (p.fits r (hmem r hr)) hbefore hlead t
    rw [hwithin r.1 (p.fits r (hmem r hr))] at hiff
    rw [Bool.eq_iff_iff]
    refine decide_eq_true_iff.trans (hiff.trans ?_)
    simp [hbefore, and_comm]
  have hsorted : (byteOrder layout p.rows).filter (fun r => within r.1) =
      ordered within layout.time fields p.rows := by
    refine @List.Perm.eq_of_pairwise _
      (fun a b => ordinals (layout.asBytes a.1) ≤ ordinals (layout.asBytes b.1)) _ _ ?_
      ((List.pairwise_insertionSort _ _).filter _) ?_
      (((List.perm_insertionSort _ _).filter _).trans (List.perm_insertionSort _ _).symm)
    · intro a b ha hb hab hba
      have ha := hmem a (List.mem_filter.mp ha).1
      have hb := (hordered b hb).1
      have hkey : a.1 = b.1 :=
        Layout.asBytes_inj (p.fits a ha) (p.fits b hb) (ordinals_inj.mp (le_antisymm hab hba))
      have hvalue := get_of_mem hnodup ha
      rw [hkey, get_of_mem hnodup hb] at hvalue
      exact Prod.ext hkey (Option.some.inj hvalue).symm
    · have hpairs : (ordered within layout.time fields p.rows).Pairwise fun a b =>
          keyOrder (layout.time a.1) (fields a.1) ≤ keyOrder (layout.time b.1) (fields b.1) :=
        List.pairwise_insertionSort _ _
      refine hpairs.imp_of_mem fun {a b} ha hb hle => ?_
      obtain ⟨ha, hawithin⟩ := hordered a ha
      obtain ⟨hb, hbwithin⟩ := hordered b hb
      have hafits := p.fits a ha
      have hbfits := p.fits b hb
      rw [hfields a.1 hafits, hfields b.1 hbfits] at hle
      have hleada := (hwithin a.1 hafits).mpr hawithin
      have hleadb := (hwithin b.1 hbfits).mpr hbwithin
      exact (keyOrder_iff hafits hbfits (hleada.trans hleadb.symm)).mpr hle
  rw [hbounds, hsorted]

/-! ## The ten ranges -/

theorem addressBytes_inj {a b : AddressPayload} : addressBytes a = addressBytes b ↔ a = b := by
  constructor
  · intro h
    have hread := readAddress_bytes a
    rw [h, readAddress_bytes] at hread
    exact (Option.some.inj hread).symm
  · rintro rfl
    rfl

/-- A range of keys that start with one address. -/
theorem address_yields {κ ν : Type} {layout : Layout κ} (p : Stored layout ν)
    (hsizes : layout.leadSizes = [34]) {addressOf : κ → AddressPayload}
    (hlead : ∀ k, layout.lead k = [addressBytes (addressOf k)]) (address : AddressPayload)
    (t : UInt64) :
    Yields p (fun k => addressOf k = address) t.toNat
      (rangeRows p.disk (addressBounds address t)) := by
  rw [addressBounds_eq]
  refine range_yields p (by simp [hsizes]) t fun k _ => ?_
  rw [Layout.leadBytes, hlead, List.flatten_singleton, addressBytes_inj]

/-- An address and a field after it are both given by the leading bytes. -/
theorem lead_two {κ : Type} {layout : Layout κ} {addressOf : κ → AddressPayload}
    {fieldOf : κ → Bytes} (hlead : ∀ k, layout.lead k = [addressBytes (addressOf k), fieldOf k])
    {k : κ} {address : AddressPayload} {field : Bytes} :
    layout.leadBytes k = addressBytes address ++ field ↔
      addressOf k = address ∧ fieldOf k = field := by
  have hflat : layout.leadBytes k = addressBytes (addressOf k) ++ fieldOf k := by
    simp [Layout.leadBytes, hlead]
  rw [hflat]
  constructor
  · intro h
    obtain ⟨haddress, hrest⟩ := List.append_inj h (by simp)
    exact ⟨addressBytes_inj.mp haddress, hrest⟩
  · rintro ⟨rfl, rfl⟩
    rfl

/-- A range of keys that start with an address and a field of fixed length. -/
theorem two_yields {κ ν : Type} {layout : Layout κ} (p : Stored layout ν) {n : ℕ}
    (hsizes : layout.leadSizes = [34, n]) {addressOf : κ → AddressPayload} {fieldOf : κ → Bytes}
    (hlead : ∀ k, layout.lead k = [addressBytes (addressOf k), fieldOf k])
    (address : AddressPayload) {field : Bytes} (hfield : field.length = n) (t : UInt64) :
    Yields p (fun k => addressOf k = address ∧ fieldOf k = field) t.toNat
      (rangeRows p.disk (boundsOf (addressBytes address ++ field) t)) := by
  exact range_yields p (by simp [hsizes, hfield]) t fun _ _ => lead_two hlead

/-- Each iterator goes through the keys that have the given leading fields, from the given time on,
in the order of their times. -/
theorem ranges_exact (t : UInt64) :
    (∀ (p : Stored handshakeBySender Unit) sender, Yields p (·.sender = sender) t.toNat
      (Handshake.iterBySenderFromBlockTime p.disk sender t)) ∧
    (∀ (p : Stored handshakeByReceiver AddressPayload) receiver,
      Yields p (·.receiver = receiver) t.toNat
        (Handshake.iterByReceiverFromBlockTime p.disk receiver t)) ∧
    (∀ (p : Stored paymentBySender Unit) sender, Yields p (·.sender = sender) t.toNat
      (Payment.getBySenderFromBlockTime p.disk sender t)) ∧
    (∀ (p : Stored paymentByReceiver AddressPayload) receiver,
      Yields p (·.receiver = receiver) t.toNat
        (Payment.getByReceiverFromBlockTime p.disk receiver t)) ∧
    (∀ (p : Stored contextualMessageBySender Unit) sender aliasBytes,
      Yields p (fun k => k.sender = sender ∧ k.aliasBytes = aliasBytes.toList) t.toNat
        (ContextualMessage.getBySenderAliasFromBlockTime p.disk sender aliasBytes t)) ∧
    (∀ (p : Stored contextualMessageByInbox AddressPayload) inboxTag,
      Yields p (·.inboxTag = inboxTag.toList) t.toNat
        (ContextualMessage.iterByTagFromBlockTime p.disk inboxTag t)) ∧
    (∀ (p : Stored selfStashByOwner Unit) scope owner,
      Yields p (fun k => k.owner = owner ∧ k.scope = padded 255 scope) t.toNat
        (SelfStash.iterByOwnerAndScopeFromBlockTime p.disk scope owner t)) ∧
    (∀ (p : Stored groupMessageByBlindedGroupId AddressPayload) blindedGroupId,
      Yields p (·.blindedGroupId = blindedGroupId.toList) t.toNat
        (GroupMessage.iterByBlindedGroupIdFromBlockTime p.disk blindedGroupId t)) ∧
    (∀ (p : Stored groupControlBySender Unit) sender, Yields p (·.sender = sender) t.toNat
      (GroupControl.getBySenderFromBlockTime p.disk sender t)) ∧
    (∀ (p : Stored groupControlByRecipient AddressPayload) recipient,
      Yields p (·.recipient = recipient) t.toNat
        (GroupControl.getByRecipientFromBlockTime p.disk recipient t)) := by
  refine ⟨fun p sender => address_yields p rfl (fun _ => rfl) sender t,
    fun p receiver => address_yields p rfl (fun _ => rfl) receiver t,
    fun p sender => address_yields p rfl (fun _ => rfl) sender t,
    fun p receiver => address_yields p rfl (fun _ => rfl) receiver t, ?_, ?_, ?_, ?_,
    fun p sender => address_yields p rfl (fun _ => rfl) sender t,
    fun p recipient => address_yields p rfl (fun _ => rfl) recipient t⟩
  · intro p sender aliasBytes
    rw [sender_alias_bounds]
    exact two_yields p rfl (fun _ => rfl) sender aliasBytes.toList_length t
  · intro p inboxTag
    rw [tag_bounds]
    refine range_yields p inboxTag.toList_length t fun k _ => ?_
    rw [Layout.leadBytes, contextualMessageByInbox, List.flatten_singleton]
  · intro p scope owner
    rw [scope_bounds]
    exact two_yields p rfl (fun _ => rfl) owner (length_padded 255 scope) t
  · intro p blindedGroupId
    rw [group_bounds]
    refine range_yields p blindedGroupId.toList_length t fun k _ => ?_
    rw [Layout.leadBytes, groupMessageByBlindedGroupId, List.flatten_singleton]

/-- What a read goes through under one address. -/
theorem address_range_eq {κ ν : Type} [DecidableEq κ] {layout : Layout κ} (p : Stored layout ν)
    (hnodup : (keys p.rows).Nodup) (hsizes : layout.leadSizes = [34])
    {addressOf : κ → AddressPayload} (hlead : ∀ k, layout.lead k = [addressBytes (addressOf k)])
    {fields : κ → List (List ℕ)}
    (hfields : ∀ k, layout.Fits k → fields k = (layout.rest k).map ordinals)
    (address : AddressPayload) (t : UInt64) :
    rangeRows p.disk (addressBounds address t) =
      (range layout.time (ordered (fun k => addressOf k = address) layout.time fields p.rows)
        t.toNat).map (row layout) := by
  rw [addressBounds_eq]
  refine range_eq p hnodup (by simp [hsizes]) t (fun k _ => ?_) hfields
  rw [Layout.leadBytes, hlead, List.flatten_singleton, addressBytes_inj, decide_eq_true_iff]

theorem ordinals_version {v : ℕ} (h : v < 256) : ordinals (versionByte v) = [v] := by
  simp [ordinals, versionByte, Nat.mod_eq_of_lt h]

/-- The rows that the reads page through are those of the iterators. -/
theorem reads_are_ranges (rows : Rows) (t : UInt64) :
    (∀ p : Stored handshakeBySender Unit, (keys p.rows).Nodup → p.rows = rows.handshakeBySender →
      ∀ sender, Handshake.iterBySenderFromBlockTime p.disk sender t =
        (range (·.blockTime) (Partitions.handshakesBySender rows sender) t.toNat).map
          (row handshakeBySender)) ∧
    (∀ p : Stored handshakeByReceiver AddressPayload, (keys p.rows).Nodup →
      p.rows = rows.handshakeByReceiver →
      ∀ receiver, Handshake.iterByReceiverFromBlockTime p.disk receiver t =
        (range (·.blockTime) (Partitions.handshakesByReceiver rows receiver) t.toNat).map
          (row handshakeByReceiver)) ∧
    (∀ p : Stored paymentBySender Unit, (keys p.rows).Nodup → p.rows = rows.paymentBySender →
      ∀ sender, Payment.getBySenderFromBlockTime p.disk sender t =
        (range (·.blockTime) (Partitions.paymentsBySender rows sender) t.toNat).map
          (row paymentBySender)) ∧
    (∀ p : Stored paymentByReceiver AddressPayload, (keys p.rows).Nodup →
      p.rows = rows.paymentByReceiver →
      ∀ receiver, Payment.getByReceiverFromBlockTime p.disk receiver t =
        (range (·.blockTime) (Partitions.paymentsByReceiver rows receiver) t.toNat).map
          (row paymentByReceiver)) ∧
    (∀ p : Stored contextualMessageBySender Unit, (keys p.rows).Nodup →
      p.rows = rows.contextualMessageBySender →
      ∀ sender aliasBytes,
        ContextualMessage.getBySenderAliasFromBlockTime p.disk sender aliasBytes t =
          (range (·.blockTime) (Partitions.contextualBySender rows sender aliasBytes.toList)
            t.toNat).map (row contextualMessageBySender)) ∧
    (∀ p : Stored contextualMessageByInbox AddressPayload, (keys p.rows).Nodup →
      p.rows = rows.contextualMessageByInbox →
      ∀ inboxTag, ContextualMessage.iterByTagFromBlockTime p.disk inboxTag t =
        (range (·.blockTime) (Partitions.contextualByInbox rows inboxTag.toList) t.toNat).map
          (row contextualMessageByInbox)) ∧
    (∀ p : Stored groupMessageByBlindedGroupId AddressPayload, (keys p.rows).Nodup →
      p.rows = rows.groupMessageByBlindedGroupId →
      ∀ blindedGroupId, GroupMessage.iterByBlindedGroupIdFromBlockTime p.disk blindedGroupId t =
        (range (·.blockTime) (Partitions.groupMessages rows blindedGroupId.toList) t.toNat).map
          (row groupMessageByBlindedGroupId)) := by
  have hplaced : ∀ {time version : ℕ} {hash : Hash} {txId : TxId}, Placed time hash version txId →
      [ordinals hash, [version], ordinals txId] =
        [hash, versionByte version, txId].map ordinals := by
    intro time version hash txId h
    simp [ordinals_version h.version]
  have hplaced' : ∀ {time version : ℕ} {hash : Hash} {txId : TxId} {address : AddressPayload},
      Placed time hash version txId →
      [ordinals hash, addressOrdinals address, [version], ordinals txId] =
        [hash, addressBytes address, versionByte version, txId].map ordinals := by
    intro time version hash txId address h
    simp [ordinals_version h.version, addressOrdinals, addressBytes]
  refine ⟨?_, ?_, ?_, ?_, ?_, ?_, ?_⟩
  · intro p hnodup hrows sender
    rw [Partitions.handshakesBySender, ← hrows]
    exact address_range_eq p hnodup rfl (fun _ => rfl) (fun _ h => hplaced' h) sender t
  · intro p hnodup hrows receiver
    rw [Partitions.handshakesByReceiver, ← hrows]
    exact address_range_eq p hnodup rfl (fun _ => rfl) (fun _ h => hplaced h) receiver t
  · intro p hnodup hrows sender
    rw [Partitions.paymentsBySender, ← hrows]
    exact address_range_eq p hnodup rfl (fun _ => rfl) (fun _ h => hplaced' h) sender t
  · intro p hnodup hrows receiver
    rw [Partitions.paymentsByReceiver, ← hrows]
    exact address_range_eq p hnodup rfl (fun _ => rfl) (fun _ h => hplaced h) receiver t
  · intro p hnodup hrows sender aliasBytes
    rw [Partitions.contextualBySender, ← hrows, sender_alias_bounds]
    refine range_eq p hnodup (by simp [contextualMessageBySender]) t (fun k hk => ?_)
      fun _ h => hplaced' h.1
    rw [decide_eq_true_iff]
    exact lead_two (fun _ => rfl)
  · intro p hnodup hrows inboxTag
    rw [Partitions.contextualByInbox, ← hrows, tag_bounds]
    refine range_eq p hnodup inboxTag.toList_length t (fun k _ => ?_) fun _ _ => rfl
    rw [Layout.leadBytes, contextualMessageByInbox, List.flatten_singleton, decide_eq_true_iff]
  · intro p hnodup hrows blindedGroupId
    rw [Partitions.groupMessages, ← hrows, group_bounds]
    refine range_eq p hnodup blindedGroupId.toList_length t (fun k _ => ?_) fun _ h => hplaced h.1
    rw [Layout.leadBytes, groupMessageByBlindedGroupId, List.flatten_singleton,
      decide_eq_true_iff]

def sampleInbox : Stored contextualMessageByInbox AddressPayload where
  rows := [(⟨List.replicate 16 9, 7, List.replicate 32 2⟩, default),
    (⟨List.replicate 16 9, 5, List.replicate 32 1⟩, default)]
  fits := by simp [contextualMessageByInbox]
  before := by simp [contextualMessageByInbox, lastTime]

theorem sample_ranges : ContextualMessage.iterByTagFromBlockTime sampleInbox.disk
    ⟨List.replicate 16 9, rfl⟩ 6 = (range (·.blockTime) (Partitions.contextualByInbox
      { Rows.empty with contextualMessageByInbox := sampleInbox.rows } (List.replicate 16 9)) 6).map
        (row contextualMessageByInbox) :=
  (reads_are_ranges { Rows.empty with contextualMessageByInbox := sampleInbox.rows } 6).2.2.2.2.2.1
    sampleInbox (by decide) rfl ⟨List.replicate 16 9, rfl⟩

end KaChatIndexer.ChatRanges
