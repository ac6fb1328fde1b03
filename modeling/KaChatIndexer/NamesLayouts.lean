import Mathlib.Tactic.Ring
import KaChatIndexer.NamesReadBack

/-!
# The layouts of the states

Encoding and decoding are inverse to each other on the states whose integers have an encoding and on
the byte strings whose integers are encodings, and the four kinds are told apart by their lengths.
-/
namespace KaChatIndexer.NamesLayouts
open ByteStrings NamesCodec NamesState NamesTransition NamesReadBack

def encodeState : Tracked → Bytes
  | .gap s => s.encode
  | .name s => s.encode
  | .offer s => s.encode
  | .shard s => s.encode

/-- The decoder of a kind. -/
def decodeState (c : Contract) (b : Bytes) : Option Tracked :=
  match c with
  | .gap => (GapState.decode b).map .gap
  | .name => (NameState.decode b).map .name
  | .offer => (OfferState.decode b).map .offer
  | .price => (PriceState.decode b).map .shard

/-- The lengths of a kind's states. -/
def lengths : Contract → List ℕ
  | .gap => [66]
  | .name => [126]
  | .offer => [75, 108]
  | .price => [87]

/-- Where the integers of a kind's states start, after their markers. -/
def intOffsets (c : Contract) (b : Bytes) : List ℕ :=
  match c with
  | .gap => []
  | .name => [100, 109, 118]
  | .offer => if b.length = 75 then [67] else [100]
  | .price => [1, 43, 52, 61, 70, 79]

def intBytes (c : Contract) (b : Bytes) : List Bytes :=
  (intOffsets c b).map fun i => (b.drop i).take 8

/-- The sign bit alone, which reads as zero. -/
def negativeZero : Bytes := [0, 0, 0, 0, 0, 0, 0, 0x80]

/-! ## Integers -/

theorem ofLeBytes_lt (b : Bytes) : ofLeBytes b < 256 ^ b.length := by
  induction b with
  | nil => simp [ofLeBytes]
  | cons c b ih =>
    have hc := c.toNat_lt
    simp only [ofLeBytes, List.length_cons, pow_succ]
    omega

theorem leBytes_ofLeBytes (b : Bytes) : leBytes b.length (ofLeBytes b) = b := by
  induction b with
  | nil => rfl
  | cons c b ih =>
    have hc := c.toNat_lt
    have hrest : (c.toNat + 256 * ofLeBytes b) / 256 = ofLeBytes b := by omega
    have hfirst : UInt8.ofNat (c.toNat + 256 * ofLeBytes b) = c := by
      apply UInt8.toNat_inj.mp
      rw [UInt8.toNat_ofNat']
      omega
    simp only [List.length_cons, ofLeBytes, leBytes, hrest, hfirst, ih]

/-- What clearing the sign bit does, and setting it again. -/
theorem signBit_apart (c : UInt8) :
    (c &&& 0x80 = 0 → c &&& 0x7f = c) ∧ (c &&& 0x80 ≠ 0 → (c &&& 0x7f) ||| 0x80 = c) ∧
      (c &&& 0x7f).toNat < 128 := by
  obtain ⟨c⟩ := c
  revert c
  decide

theorem ofLeBytes_append (b c : Bytes) :
    ofLeBytes (b ++ c) = ofLeBytes b + 256 ^ b.length * ofLeBytes c := by
  induction b with
  | nil => simp [ofLeBytes]
  | cons d b ih =>
    simp only [List.cons_append, ofLeBytes, ih, List.length_cons, pow_succ]
    ring

/-- Eight bytes are what their integer encodes to, unless they are the negative zero. -/
theorem num8Encode_decode {v : List.Vector UInt8 8} (h : v.toList ≠ negativeZero) :
    num8Encode (num8Decode v) = v.toList := by
  have hlength : v.toList.length = 8 := v.toList_length
  obtain ⟨low, c, hv⟩ : ∃ low c, v.toList = low ++ [c] :=
    ⟨v.toList.dropLast, v.toList.getLast (by rw [← List.length_pos_iff]; omega),
      (List.dropLast_append_getLast _).symm⟩
  have hlow : low.length = 7 := by
    rw [hv] at hlength
    simpa using hlength
  obtain ⟨hclear, hset, hsmall⟩ := signBit_apart c
  set n := ofLeBytes (low ++ [c &&& 0x7f]) with hn
  have hbytes : leBytes 8 n = low ++ [c &&& 0x7f] := by
    have hbytes := leBytes_ofLeBytes (low ++ [c &&& 0x7f])
    rwa [List.length_append, hlow] at hbytes
  obtain ⟨hleft, hright⟩ := List.append_inj ((leBytes_last n).symm.trans hbytes)
    (by rw [leBytes_length, hlow])
  have htop : c &&& 0x7f = UInt8.ofNat (n / 256 ^ 7) := by simpa using hright.symm
  have hbound : n < 2 ^ 63 := by
    have hltlow := ofLeBytes_lt low
    rw [hn, ofLeBytes_append]
    simp only [hlow, ofLeBytes] at hltlow ⊢
    omega
  have hdecode := num8Decode_magnitude (by rw [hv, hleft]) htop hbound
  have hnat : (Int64.ofNat n).toInt = n := Int64.toInt_ofNat_of_lt hbound
  rw [hdecode, hv]
  split
  · next hneg =>
    -- a magnitude of zero would make the bytes the negative zero
    have hpos : 0 < n := by
      by_contra hzero
      have hzeros : low ++ [c &&& 0x7f] = [0, 0, 0, 0, 0, 0, 0] ++ [0] := by
        rw [← hbytes, Nat.eq_zero_of_not_pos hzero]
        rfl
      obtain ⟨hl, hr⟩ := List.append_inj hzeros hlow
      have hc : c &&& 0x7f = 0 := by simpa using hr
      rw [hc] at hset
      exact h (by rw [hv, hl, ← hset hneg]; rfl)
    have hint : (-Int64.ofNat n).toInt = -n := by
      rw [Int64.toInt_neg, hnat, Int.bmod_def]
      omega
    have hlt : -Int64.ofNat n < 0 := by
      rw [Int64.lt_iff_toInt_lt, hint]
      simpa using hpos
    have hlast := modify_last low (c &&& 0x7f) (· ||| 0x80)
    rw [hlow, hset hneg] at hlast
    simp only [num8Encode, hint, if_pos hlt, Int.natAbs_neg, Int.natAbs_natCast, hbytes]
    exact hlast
  · next hpos =>
    have hge : ¬ Int64.ofNat n < 0 := by
      rw [Int64.lt_iff_toInt_lt, hnat]
      simp
    rw [hclear (not_not.mp hpos)] at hbytes
    simp only [num8Encode, hnat, if_neg hge, Int.natAbs_natCast, hbytes]

/-! ## Fields -/

theorem tryInto_toList {n : ℕ} {b : Bytes} {v : List.Vector UInt8 n} (h : tryInto n b = some v) :
    v.toList = b := by
  unfold tryInto at h
  split at h
  · cases h
    rfl
  · cases h

theorem drop_marker {b : Bytes} {i : ℕ} {m : UInt8} (h : b[i]? = some m) :
    b.drop i = m :: b.drop (i + 1) := by
  obtain ⟨hi, rfl⟩ := List.getElem?_eq_some_iff.mp h
  exact List.drop_eq_getElem_cons hi

/-- A marked 32-byte field, and what follows it. -/
theorem word_at {b : Bytes} {m : UInt8} {k : Bytes32} (i j : ℕ) (hm : b[i]? = some m)
    (hk : take32 b (i + 1) = some k) (hj : i + 33 = j) : b.drop i = m :: (k.toList ++ b.drop j) := by
  rw [drop_marker hm, tryInto_toList hk, ← hj, show i + 33 = i + 1 + 32 from rfl,
    ← List.drop_drop (j := i + 1), List.take_append_drop]

/-- A marked integer that is not the negative zero, and what follows it. -/
theorem int_at {b : Bytes} {m : UInt8} {v : List.Vector UInt8 8} (i j : ℕ) (hm : b[i]? = some m)
    (hv : take8 b (i + 1) = some v) (hzero : (b.drop (i + 1)).take 8 ≠ negativeZero)
    (hj : i + 9 = j) : b.drop i = m :: (num8Encode (num8Decode v) ++ b.drop j) := by
  have hlist := tryInto_toList hv
  rw [num8Encode_decode (hlist ▸ hzero), drop_marker hm, hlist, ← hj,
    show i + 9 = i + 1 + 8 from rfl, ← List.drop_drop (j := i + 1), List.take_append_drop]

theorem drop_length {b : Bytes} {n : ℕ} (h : b.length = n) : b.drop n = [] := by
  rw [← h, List.drop_length]

/-! ## Encoding what was decoded -/

section
variable {b : Bytes}

theorem gap_encode_decode {s : GapState} (h : GapState.decode b = some s) : s.encode = b := by
  unfold GapState.decode at h
  split at h
  · cases h
  next hshape =>
  simp only [not_or, not_not] at hshape
  obtain ⟨hlength, h0, h33⟩ := hshape
  simp only [Option.bind_eq_bind, Option.bind_eq_some_iff] at h
  obtain ⟨lo, hlo, hi, hhi, hs⟩ := h
  cases hs
  have hfirst := word_at 0 33 h0 hlo rfl
  rw [word_at 33 66 h33 hhi rfl, drop_length hlength] at hfirst
  rw [← List.drop_zero (l := b), hfirst]
  simp [GapState.encode]

theorem name_encode_decode {s : NameState} (h : NameState.decode b = some s)
    (hints : negativeZero ∉ intBytes .name b) : s.encode = b := by
  unfold NameState.decode at h
  split at h
  · cases h
  next hshape =>
  simp only [not_or, not_not] at hshape
  obtain ⟨hlength, h0, h33, h66, h99, h108, h117⟩ := hshape
  simp only [Option.bind_eq_bind, Option.bind_eq_some_iff] at h
  obtain ⟨key, hkey, name, hname, owner, howner, price, hprice, start, hstart, expires, hexpires,
    hs⟩ := h
  cases hs
  obtain ⟨n100, n109, n118⟩ : (b.drop 100).take 8 ≠ negativeZero ∧
      (b.drop 109).take 8 ≠ negativeZero ∧ (b.drop 118).take 8 ≠ negativeZero := by
    simpa [intBytes, intOffsets, eq_comm] using hints
  have hfirst := word_at 0 33 h0 hkey rfl
  rw [word_at 33 66 h33 hname rfl, word_at 66 99 h66 howner rfl, int_at 99 108 h99 hprice n100 rfl,
    int_at 108 117 h108 hstart n109 rfl, int_at 117 126 h117 hexpires n118 rfl,
    drop_length hlength] at hfirst
  rw [← List.drop_zero (l := b), hfirst]
  simp [NameState.encode]

theorem offer_encode_decode {s : OfferState} (h : OfferState.decode b = some s)
    (hints : negativeZero ∉ intBytes .offer b) : s.encode = b := by
  unfold OfferState.decode at h
  split at h
  · next hshape =>
    obtain ⟨hlength, h0, h33, h66⟩ := hshape
    simp only [Option.bind_eq_bind, Option.bind_eq_some_iff] at h
    obtain ⟨key, hkey, buyer, hbuyer, refund, hrefund, hs⟩ := h
    cases hs
    have n67 : (b.drop 67).take 8 ≠ negativeZero := by
      simpa [intBytes, intOffsets, hlength, eq_comm] using hints
    have hfirst := word_at 0 33 h0 hkey rfl
    rw [word_at 33 66 h33 hbuyer rfl, int_at 66 75 h66 hrefund n67 rfl, drop_length hlength]
      at hfirst
    rw [← List.drop_zero (l := b), hfirst]
    simp [OfferState.encode]
  · split at h
    · next hshape =>
      obtain ⟨hlength, h0, h33, h66, h99⟩ := hshape
      simp only [Option.bind_eq_bind, Option.bind_eq_some_iff] at h
      obtain ⟨key, hkey, buyer, hbuyer, seller, hseller, refund, hrefund, hs⟩ := h
      cases hs
      have n100 : (b.drop 100).take 8 ≠ negativeZero := by
        simpa [intBytes, intOffsets, hlength, eq_comm] using hints
      have hfirst := word_at 0 33 h0 hkey rfl
      rw [word_at 33 66 h33 hbuyer rfl, word_at 66 99 h66 hseller rfl,
        int_at 99 108 h99 hrefund n100 rfl, drop_length hlength] at hfirst
      rw [← List.drop_zero (l := b), hfirst]
      simp [OfferState.encode]
    · cases h

theorem shard_encode_decode {s : PriceState} (h : PriceState.decode b = some s)
    (hints : negativeZero ∉ intBytes .price b) : s.encode = b := by
  unfold PriceState.decode at h
  split at h
  · cases h
  next hshape =>
  simp only [not_or, not_not] at hshape
  obtain ⟨hlength, h0, h9⟩ := hshape
  simp only [Option.bind_eq_bind, Option.bind_eq_some_iff, Option.ite_none_left_eq_some,
    Option.map_eq_some_iff, not_not] at h
  obtain ⟨p0, ⟨h42, v0, hv0, rfl⟩, p1, ⟨h51, v1, hv1, rfl⟩, p2, ⟨h60, v2, hv2, rfl⟩, p3,
    ⟨h69, v3, hv3, rfl⟩, p4, ⟨h78, v4, hv4, rfl⟩, shard, hshard, authority, hauthority, hs⟩ := h
  cases hs
  obtain ⟨n1, n43, n52, n61, n70, n79⟩ : (b.drop 1).take 8 ≠ negativeZero ∧
      (b.drop 43).take 8 ≠ negativeZero ∧ (b.drop 52).take 8 ≠ negativeZero ∧
      (b.drop 61).take 8 ≠ negativeZero ∧ (b.drop 70).take 8 ≠ negativeZero ∧
      (b.drop 79).take 8 ≠ negativeZero := by
    simpa [intBytes, intOffsets, eq_comm] using hints
  have hfirst := int_at 0 9 h0 hshard n1 rfl
  rw [word_at 9 42 h9 hauthority rfl, int_at 42 51 h42 hv0 n43 rfl, int_at 51 60 h51 hv1 n52 rfl,
    int_at 60 69 h60 hv2 n61 rfl, int_at 69 78 h69 hv3 n70 rfl, int_at 78 87 h78 hv4 n79 rfl,
    drop_length hlength] at hfirst
  rw [← List.drop_zero (l := b), hfirst]
  simp [PriceState.encode]

/-- What a kind's decoder accepts has a length of the kind. -/
theorem decode_length {c : Contract} {s : Tracked} (h : decodeState c b = some s) :
    b.length ∈ lengths c := by
  cases c with
  | gap =>
    obtain ⟨s, hs, -⟩ := Option.map_eq_some_iff.mp h
    unfold GapState.decode at hs
    split at hs
    · cases hs
    · next hshape => simp_all [lengths]
  | name =>
    obtain ⟨s, hs, -⟩ := Option.map_eq_some_iff.mp h
    unfold NameState.decode at hs
    split at hs
    · cases hs
    · next hshape => simp_all [lengths]
  | offer =>
    obtain ⟨s, hs, -⟩ := Option.map_eq_some_iff.mp h
    unfold OfferState.decode at hs
    split at hs
    · next hshape => simp [lengths, hshape.1]
    · split at hs
      · next hshape => simp [lengths, hshape.1]
      · cases hs
  | price =>
    obtain ⟨s, hs, -⟩ := Option.map_eq_some_iff.mp h
    unfold PriceState.decode at hs
    split at hs
    · cases hs
    · next hshape => simp_all [lengths]

end

theorem encode_length (s : Tracked) : (encodeState s).length ∈ lengths (trackedContract s) := by
  cases s with
  | gap s => simp [encodeState, trackedContract, lengths, GapState.encode]
  | name s => simp [encodeState, trackedContract, lengths, NameState.encode]
  | offer s =>
    obtain ⟨key, buyer, seller, refund⟩ := s
    cases seller <;> simp [encodeState, trackedContract, lengths, OfferState.encode]
  | shard s =>
    have hprices : (s.prices.toList.flatMap fun p => 0x08 :: num8Encode p).length = 45 := by
      simp [List.length_flatMap, s.prices.toList_length]
    simp [encodeState, trackedContract, lengths, PriceState.encode, hprices]

theorem lengths_disjoint {c c' : Contract} {n : ℕ} (h : n ∈ lengths c) (h' : n ∈ lengths c') :
    c = c' := by
  cases c <;> cases c' <;> simp_all [lengths]

theorem decodeState_encode (s : Tracked) :
    decodeState (trackedContract s) (encodeState s) = some (readState s) := by
  cases s with
  | gap s => simp [decodeState, trackedContract, encodeState, gap_decode_encode, readState]
  | name s => simp [decodeState, trackedContract, encodeState, name_decode_encode, readState]
  | offer s => simp [decodeState, trackedContract, encodeState, offer_decode_encode, readState]
  | shard s => simp [decodeState, trackedContract, encodeState, shard_decode_encode, readState]

theorem encodeState_decode {c : Contract} {b : Bytes} {s : Tracked} (h : decodeState c b = some s)
    (hints : negativeZero ∉ intBytes c b) : encodeState s = b := by
  cases c with
  | gap =>
    obtain ⟨s, hs, rfl⟩ := Option.map_eq_some_iff.mp h
    exact gap_encode_decode hs
  | name =>
    obtain ⟨s, hs, rfl⟩ := Option.map_eq_some_iff.mp h
    exact name_encode_decode hs hints
  | offer =>
    obtain ⟨s, hs, rfl⟩ := Option.map_eq_some_iff.mp h
    exact offer_encode_decode hs hints
  | price =>
    obtain ⟨s, hs, rfl⟩ := Option.map_eq_some_iff.mp h
    exact shard_encode_decode hs hints

/-- The layouts are faithful both ways, and a state's length tells its kind. -/
theorem layouts_faithful :
    (∀ s, (∀ v ∈ stateInts s, v ≠ Int64.minValue) →
      decodeState (trackedContract s) (encodeState s) = some s) ∧
    (∀ c b s, decodeState c b = some s → negativeZero ∉ intBytes c b → encodeState s = b) ∧
    (∀ s s', (encodeState s).length = (encodeState s').length →
      trackedContract s = trackedContract s') ∧
    ∀ b c c', (decodeState c b).isSome → (decodeState c' b).isSome → c = c' := by
  refine ⟨fun s hs => ?_, fun c b s => encodeState_decode, fun s s' h => ?_, fun b c c' h h' => ?_⟩
  · rw [decodeState_encode, readState_eq hs]
  · exact lengths_disjoint (encode_length s) (h ▸ encode_length s')
  · obtain ⟨s, hs⟩ := Option.isSome_iff_exists.mp h
    obtain ⟨s', hs'⟩ := Option.isSome_iff_exists.mp h'
    exact lengths_disjoint (decode_length hs) (decode_length hs')

/-- The negative zero is the one integer that does not come back: it reads as zero. -/
example : (tryInto 8 negativeZero).map num8Decode = some 0 ∧ num8Encode 0 ≠ negativeZero := by decide

end KaChatIndexer.NamesLayouts
