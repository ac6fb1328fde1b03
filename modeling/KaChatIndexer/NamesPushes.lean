import KaChatIndexer.CursorTexts
import KaChatIndexer.NamesStep
import KaChatIndexer.PushSigned

/-!
# Name pushes

Which pushes the events of a batch produce, and what a renewal reminder looks like.
-/
namespace KaChatIndexer.NamesPushes
open ByteStrings NamesState NamesEnv NamesRegistry NamesTransition NamesApply NamesStep
open NamesTemplates KaText CursorTexts
open ScheduledPosts (hexEncode)

def dayMs : Int64 := 86400000

inductive PushEvent
  | offer | sold | offerAccepted | offerDeclined | offerRefunded
  | renewalOpen | expiring | grace | lapsed
  deriving DecidableEq

/-- One push for the push service; the dedup key is the same at every retry. -/
structure NamePush where
  toKey : Bytes32
  event : PushEvent
  name : Bytes
  txId : Text
  amount : Option Int64
  days : Option UInt32
  dedup : Text
  deriving DecidableEq

/-- A renewal reminder. It has no transaction, so the dedup key stands in for one. -/
def NamePush.reminder (n : NameState) (event : PushEvent) (days : Option UInt32) (kind : Text) :
    NamePush :=
  let dedup := hexEncode n.key.toList ++ ':' :: (decimalText n.expiresAt.toInt ++ ':' :: kind)
  ⟨n.owner, event, n.nameStr, dedup, none, days, dedup⟩

/-- What the pushes of a batch are planned from. -/
structure Batch where
  before : UtxoMap
  after : UtxoMap
  values : Finmap fun _ : Outpoint => UInt64
  names : Finmap fun _ : Bytes32 => Bytes
  txInputs : Finmap fun _ : Bytes32 => List Outpoint

section
variable (env : Env) (b : Batch) (e : Event)

def ownerOf (key : Bytes32) (set : UtxoMap) : Option Bytes32 :=
  (env.iter set).1.findSome? fun op =>
    match set.lookup op with
    | some (.name n) => if n.key = key then some n.owner else none
    | _ => none

def isOfferOn (key : Bytes32) : Option Tracked → Bool
  | some (.offer o) => o.key = key
  | _ => false

/-- The offer that the event's transaction made on its name. -/
def madeOffer : Option Outpoint :=
  (env.iter b.after).1.find? fun op => op.1 = e.txId && isOfferOn e.key (b.after.lookup op)

def inputsOf : List Outpoint := (b.txInputs.lookup e.txId).getD []

/-- The first input of the event's transaction that spent an offer on its name. -/
def spentOffer : Option Outpoint := (inputsOf b e).find? fun op => isOfferOn e.key (b.before.lookup op)

/-- `.and_then(|op| values.get(op)).map(|v| *v as i64)`. -/
def amountOf (op : Option Outpoint) : Option Int64 := (op.bind b.values.lookup).map UInt64.toInt64

def dedupKey (kind : Text) : Text := hexEncode e.txId.toList ++ ':' :: kind

/-- The pushes of one event. -/
def pushesOf : List NamePush :=
  match b.names.lookup e.key with
  | none => []
  | some name =>
    let tx := hexEncode e.txId.toList
    match e.op with
    | .offer =>
      match ownerOf env e.key b.after with
      | none => []
      | some owner =>
        -- an offer bound to a former owner, or one's own offer
        if e.fromKey.any (· ≠ owner) then []
        else if some owner = e.toKey then []
        else [⟨owner, .offer, name, tx, amountOf b (madeOffer env b e), none,
          dedupKey e "offer".toList⟩]
    | .sale => e.fromKey.toList.map fun seller =>
        ⟨seller, .sold, name, tx, e.price, none, dedupKey e "sold".toList⟩
    | .offerAccepted =>
      let offerValue := amountOf b (spentOffer b e)
      (e.toKey.toList.map fun buyer =>
        ⟨buyer, .offerAccepted, name, tx, none, none, dedupKey e "accepted".toList⟩) ++
      e.fromKey.toList.map fun seller =>
        ⟨seller, .sold, name, tx, offerValue, none, dedupKey e "sold".toList⟩
    | .offerDecline | .offerRefund =>
      let amount := amountOf b (spentOffer b e)
      let (event, kind) := if e.op = .offerDecline then (PushEvent.offerDeclined, "declined".toList)
        else (PushEvent.offerRefunded, "refunded".toList)
      e.toKey.toList.map fun buyer => ⟨buyer, event, name, tx, amount, none, dedupKey e kind⟩
    | _ => []

def eventPushes (events : List Event) : List NamePush := events.flatMap (pushesOf env b)

end

/-- What stands before the first colon. -/
theorem append_colon_inj {a b x y : Text} (ha : ':' ∉ a) (hb : ':' ∉ b)
    (h : a ++ ':' :: x = b ++ ':' :: y) : a = b ∧ x = y :=
  PushSigned.append_cons_inj h (by rw [List.count_eq_zero.mpr ha, List.count_eq_zero.mpr hb])

theorem dedupKey_inj {e e' : Event} {kind kind' : Text} :
    dedupKey e kind = dedupKey e' kind' ↔ e.txId = e'.txId ∧ kind = kind' := by
  constructor
  · intro h
    obtain ⟨htx, hkind⟩ := append_colon_inj (colon_hexEncode _) (colon_hexEncode _) h
    exact ⟨Subtype.ext (hexEncode_inj.mp htx), hkind⟩
  · rintro ⟨htx, hkind⟩
    rw [dedupKey, dedupKey, htx, hkind]

/-! ## Exits of offers -/

/-- The events that tell of an offer's end: declined, refunded or accepted. -/
def isExit (op : Op) : Prop := op = .offerDecline ∨ op = .offerRefund ∨ op = .offerAccepted

/-- The dedup kind of an exit's push to the buyer. -/
def buyerKind : Op → Text
  | .offerDecline => "declined".toList
  | .offerRefund => "refunded".toList
  | _ => "accepted".toList

def soldKind : Text := "sold".toList

def buyerEvent : Op → PushEvent
  | .offerDecline => .offerDeclined
  | .offerRefund => .offerRefunded
  | _ => .offerAccepted

theorem buyerKind_inj {op op' : Op} (h : isExit op) (h' : isExit op')
    (hkind : buyerKind op = buyerKind op') : op = op' := by
  rcases h with rfl | rfl | rfl <;> rcases h' with rfl | rfl | rfl <;> first
    | rfl
    | exact absurd hkind (by decide)

theorem buyerKind_ne_sold (op : Op) : buyerKind op ≠ soldKind := by
  cases op <;> decide

section
variable {env : Env} {b : Batch} {e : Event}

theorem known_of_push {p : NamePush} (hp : p ∈ pushesOf env b e) : (b.names.lookup e.key).isSome := by
  unfold pushesOf at hp
  split at hp
  · cases hp
  · next h => rw [h]; rfl

/-- What an exit tells the buyer. -/
def buyerPush (b : Batch) (e : Event) (name : Bytes) (buyer : Bytes32) : NamePush where
  toKey := buyer
  event := buyerEvent e.op
  name := name
  txId := hexEncode e.txId.toList
  amount := if e.op = .offerAccepted then none else amountOf b (spentOffer b e)
  days := none
  dedup := dedupKey e (buyerKind e.op)

/-- What an acceptance tells the seller. -/
def sellerPush (b : Batch) (e : Event) (name : Bytes) (seller : Bytes32) : NamePush where
  toKey := seller
  event := .sold
  name := name
  txId := hexEncode e.txId.toList
  amount := amountOf b (spentOffer b e)
  days := none
  dedup := dedupKey e soldKind

theorem exit_pushes (hexit : isExit e.op) {name : Bytes} (hname : b.names.lookup e.key = some name) :
    pushesOf env b e = e.toKey.toList.map (buyerPush b e name) ++
      if e.op = .offerAccepted then e.fromKey.toList.map (sellerPush b e name) else [] := by
  obtain ⟨op, key, txId, block, daa, time, fromKey, toKey, price, years, fee⟩ := e
  unfold pushesOf
  rw [hname]
  rcases hexit with hop | hop | hop
  · cases hop
    exact (List.append_nil _).symm
  · cases hop
    exact (List.append_nil _).symm
  · cases hop
    rfl

theorem mem_exit_pushes (hexit : isExit e.op) {p : NamePush} :
    p ∈ pushesOf env b e ↔ ∃ name, b.names.lookup e.key = some name ∧
      ((∃ buyer, e.toKey = some buyer ∧ p = buyerPush b e name buyer) ∨
        e.op = .offerAccepted ∧ ∃ seller, e.fromKey = some seller ∧ p = sellerPush b e name seller) := by
  constructor
  · intro hp
    obtain ⟨name, hname⟩ := Option.isSome_iff_exists.mp (known_of_push hp)
    rw [exit_pushes hexit hname, List.mem_append] at hp
    refine ⟨name, hname, ?_⟩
    rcases hp with hp | hp
    · obtain ⟨buyer, hbuyer, rfl⟩ := List.mem_map.mp hp
      exact .inl ⟨buyer, Option.mem_toList.mp hbuyer, rfl⟩
    · split at hp
      · next hop =>
        obtain ⟨seller, hseller, rfl⟩ := List.mem_map.mp hp
        exact .inr ⟨hop, seller, Option.mem_toList.mp hseller, rfl⟩
      · cases hp
  · rintro ⟨name, hname, ⟨buyer, hbuyer, rfl⟩ | ⟨hop, seller, hseller, rfl⟩⟩
    · rw [exit_pushes hexit hname, hbuyer]
      exact List.mem_append_left _ (List.mem_singleton_self _)
    · rw [exit_pushes hexit hname, if_pos hop, hseller]
      exact List.mem_append_right _ (List.mem_singleton_self _)

theorem ownerOf_mem {key owner : Bytes32} {set : UtxoMap} (h : ownerOf env key set = some owner) :
    ∃ op n, set.lookup op = some (.name n) ∧ n.key = key ∧ n.owner = owner := by
  obtain ⟨op, -, hop⟩ := List.exists_of_findSome?_eq_some h
  split at hop
  · next n hn =>
    split at hop
    · next hkey => exact ⟨op, n, hn, hkey, Option.some.inj hop⟩
    · cases hop
  · cases hop

/-- A new offer is told to the name's owner, who did not make it and whom it may be bound to. -/
theorem offer_push {p : NamePush} (hp : p ∈ pushesOf env b e) (hevent : p.event = .offer) :
    (∃ op n, b.after.lookup op = some (.name n) ∧ n.key = e.key ∧ n.owner = p.toKey) ∧
      e.toKey ≠ some p.toKey ∧ ∀ seller, e.fromKey = some seller → seller = p.toKey := by
  obtain ⟨name, hname⟩ := Option.isSome_iff_exists.mp (known_of_push hp)
  by_cases hexit : isExit e.op
  · obtain ⟨name, -, ⟨buyer, -, rfl⟩ | ⟨-, seller, -, rfl⟩⟩ := (mem_exit_pushes hexit).mp hp
    · rcases hexit with hop | hop | hop <;> simp [buyerPush, buyerEvent, hop] at hevent
    · cases hevent
  unfold pushesOf at hp
  rw [hname] at hp
  dsimp only at hp
  split at hp
  · split at hp
    · cases hp
    next owner howner =>
    split at hp
    · cases hp
    next hbound =>
    split at hp
    · cases hp
    next hown =>
    rw [List.mem_singleton.mp hp]
    refine ⟨ownerOf_mem howner, fun h => hown h.symm, fun seller hseller => ?_⟩
    rw [hseller] at hbound
    simpa using hbound
  · obtain ⟨seller, -, rfl⟩ := List.mem_map.mp hp
    cases hevent
  · next hop => exact absurd (.inr (.inr hop)) hexit
  · next hop => exact absurd (.inl hop) hexit
  · next hop => exact absurd (.inr (.inl hop)) hexit
  · cases hp

end

/-! ## Batches whose exits are told apart -/

/-- The events of a batch, each exit with the offer it is about, which its transaction spent. -/
structure Labelled (b : Batch) where
  events : List (Event × Option Outpoint)
  own : ∀ x ∈ events, isExit x.1.op → ∃ op ∈ inputsOf b x.1, x.2 = some op

/-- The pushes are addressed and keyed as they should be: the exits of different offers have
different dedup keys, an amount is that of the exit's own offer, and a new offer is told to the
owner who can act on it. -/
structure PushesCorrect (env : Env) (b : Batch) (l : Labelled b) : Prop where
  distinct : ∀ x ∈ l.events, ∀ y ∈ l.events, isExit x.1.op → isExit y.1.op →
    (x.1.txId, x.2) ≠ (y.1.txId, y.2) →
    ∀ p ∈ pushesOf env b x.1, ∀ q ∈ pushesOf env b y.1, p.dedup ≠ q.dedup
  amounts : ∀ x ∈ l.events, isExit x.1.op → ∀ p ∈ pushesOf env b x.1,
    p.event ≠ .offerAccepted → p.amount = amountOf b x.2
  offers : ∀ x ∈ l.events, ∀ p ∈ pushesOf env b x.1, p.event = .offer →
    (∃ op n, b.after.lookup op = some (.name n) ∧ n.key = x.1.key ∧ n.owner = p.toKey) ∧
      x.1.toKey ≠ some p.toKey ∧ ∀ seller, x.1.fromKey = some seller → seller = p.toKey

/-- The event's name is known, so that it can be told. -/
def Known (b : Batch) (e : Event) : Prop := (b.names.lookup e.key).isSome

/-- Who learns of the amount: the seller of an accepted offer, else the buyer. -/
def payee (e : Event) : Option Bytes32 := if e.op = .offerAccepted then e.fromKey else e.toKey

/-- No transaction ends two offers in one way with both buyers or both sellers to tell, and the first
offer on the name among a transaction's inputs is worth what the exit's own offer is. -/
structure Apart (b : Batch) (l : Labelled b) : Prop where
  single : ∀ x ∈ l.events, ∀ y ∈ l.events, isExit x.1.op → x.1.op = y.1.op →
    x.1.txId = y.1.txId → x.2 ≠ y.2 → Known b x.1 → Known b y.1 →
    ¬ (x.1.toKey.isSome ∧ y.1.toKey.isSome) ∧
      (x.1.op = .offerAccepted → ¬ (x.1.fromKey.isSome ∧ y.1.fromKey.isSome))
  first : ∀ x ∈ l.events, isExit x.1.op → Known b x.1 → (payee x.1).isSome →
    (spentOffer b x.1).bind b.values.lookup = x.2.bind b.values.lookup

section
variable {env : Env} {b : Batch} {l : Labelled b}

theorem amountOf_inj {op op' : Option Outpoint} :
    amountOf b op = amountOf b op' ↔ op.bind b.values.lookup = op'.bind b.values.lookup := by
  refine ⟨fun h => ?_, fun h => by rw [amountOf, amountOf, h]⟩
  exact Option.map_injective (fun v w hvw => congrArg Int64.toUInt64 hvw) h

theorem apart_of_correct (h : PushesCorrect env b l) : Apart b l where
  single x hx y hy hexit hop htx hoffer hknown hknown' := by
    obtain ⟨name, hname⟩ := Option.isSome_iff_exists.mp hknown
    obtain ⟨name', hname'⟩ := Option.isSome_iff_exists.mp hknown'
    have hne : (x.1.txId, x.2) ≠ (y.1.txId, y.2) := fun hpair => hoffer (Prod.mk.inj hpair).2
    constructor
    · rintro ⟨hto, hto'⟩
      obtain ⟨buyer, hbuyer⟩ := Option.isSome_iff_exists.mp hto
      obtain ⟨buyer', hbuyer'⟩ := Option.isSome_iff_exists.mp hto'
      refine h.distinct x hx y hy hexit (hop ▸ hexit) hne
        (buyerPush b x.1 name buyer) ((mem_exit_pushes hexit).mpr ⟨name, hname, .inl ⟨_, hbuyer, rfl⟩⟩)
        (buyerPush b y.1 name' buyer')
        ((mem_exit_pushes (hop ▸ hexit)).mpr ⟨name', hname', .inl ⟨_, hbuyer', rfl⟩⟩) ?_
      exact dedupKey_inj.mpr ⟨htx, by rw [hop]⟩
    · rintro haccepted ⟨hfrom, hfrom'⟩
      obtain ⟨seller, hseller⟩ := Option.isSome_iff_exists.mp hfrom
      obtain ⟨seller', hseller'⟩ := Option.isSome_iff_exists.mp hfrom'
      refine h.distinct x hx y hy hexit (hop ▸ hexit) hne (sellerPush b x.1 name seller)
        ((mem_exit_pushes hexit).mpr ⟨name, hname, .inr ⟨haccepted, _, hseller, rfl⟩⟩)
        (sellerPush b y.1 name' seller')
        ((mem_exit_pushes (hop ▸ hexit)).mpr
          ⟨name', hname', .inr ⟨hop ▸ haccepted, _, hseller', rfl⟩⟩) ?_
      exact dedupKey_inj.mpr ⟨htx, rfl⟩
  first x hx hexit hknown hpayee := by
    obtain ⟨name, hname⟩ := Option.isSome_iff_exists.mp hknown
    obtain ⟨k, hk⟩ := Option.isSome_iff_exists.mp hpayee
    apply amountOf_inj.mp
    unfold payee at hk
    split at hk
    · next haccepted =>
      exact h.amounts x hx hexit (sellerPush b x.1 name k)
        ((mem_exit_pushes hexit).mpr ⟨name, hname, .inr ⟨haccepted, _, hk, rfl⟩⟩) (by simp [sellerPush])
    · next hother =>
      have hevent : buyerEvent x.1.op ≠ .offerAccepted := by
        rcases hexit with hop | hop | hop
        · simp [hop, buyerEvent]
        · simp [hop, buyerEvent]
        · exact absurd hop hother
      have hamount := h.amounts x hx hexit (buyerPush b x.1 name k)
        ((mem_exit_pushes hexit).mpr ⟨name, hname, .inl ⟨_, hk, rfl⟩⟩) hevent
      simpa [buyerPush, hother] using hamount

theorem correct_of_apart (h : Apart b l) : PushesCorrect env b l where
  distinct x hx y hy hexit hexit' hne p hp q hq := by
    have hsingle (hop : x.1.op = y.1.op) (htx : x.1.txId = y.1.txId) :=
      h.single x hx y hy hexit hop htx (fun hoffer => hne (by rw [htx, hoffer])) (known_of_push hp)
        (known_of_push hq)
    obtain ⟨-, -, ⟨buyer, hbuyer, rfl⟩ | ⟨hop, seller, hseller, rfl⟩⟩ := (mem_exit_pushes hexit).mp hp
    · obtain ⟨-, -, ⟨buyer', hbuyer', rfl⟩ | ⟨-, seller', -, rfl⟩⟩ := (mem_exit_pushes hexit').mp hq
      · intro hdedup
        obtain ⟨htx, hkind⟩ := dedupKey_inj.mp hdedup
        exact (hsingle (buyerKind_inj hexit hexit' hkind) htx).1 ⟨by simp [hbuyer], by simp [hbuyer']⟩
      · exact fun hdedup => buyerKind_ne_sold _ (dedupKey_inj.mp hdedup).2
    · obtain ⟨-, -, ⟨buyer', -, rfl⟩ | ⟨hop', seller', hseller', rfl⟩⟩ :=
        (mem_exit_pushes hexit').mp hq
      · exact fun hdedup => buyerKind_ne_sold _ (dedupKey_inj.mp hdedup).2.symm
      · intro hdedup
        obtain ⟨htx, -⟩ := dedupKey_inj.mp hdedup
        exact (hsingle (hop.trans hop'.symm) htx).2 hop ⟨by simp [hseller], by simp [hseller']⟩
  amounts x hx hexit p hp hevent := by
    obtain ⟨name, hname, ⟨buyer, hbuyer, rfl⟩ | ⟨hop, seller, hseller, rfl⟩⟩ :=
      (mem_exit_pushes hexit).mp hp
    · have hother : x.1.op ≠ .offerAccepted := fun hop => hevent (by simp [buyerPush, hop, buyerEvent])
      have hpayee : (payee x.1).isSome := by simp [payee, hother, hbuyer]
      have hfirst := h.first x hx hexit (by simp [Known, hname]) hpayee
      simpa [buyerPush, hother] using amountOf_inj.mpr hfirst
    · have hpayee : (payee x.1).isSome := by simp [payee, hop, hseller]
      exact amountOf_inj.mpr (h.first x hx hexit (by simp [Known, hname]) hpayee)
  offers x hx p hp hevent := offer_push hp hevent

/-- The pushes of a batch are as they should be exactly when its exits are told apart. -/
theorem pushes_correct_iff (env : Env) (b : Batch) (l : Labelled b) :
    PushesCorrect env b l ↔ Apart b l :=
  ⟨apart_of_correct, correct_of_apart⟩

end

/-! ## Two offers declined in one transaction -/

/-- Two buyers' offers on one name, of 4 and of 7 KAS. -/
def declinedBatch : Batch where
  before := ((∅ : UtxoMap).insert (List.Vector.replicate 32 9, 0)
      (.offer ⟨List.Vector.replicate 32 1, List.Vector.replicate 32 3, none, 10⟩)).insert
    (List.Vector.replicate 32 8, 0)
      (.offer ⟨List.Vector.replicate 32 1, List.Vector.replicate 32 4, none, 10⟩)
  after := ∅
  values := ((∅ : Finmap fun _ : Outpoint => UInt64).insert (List.Vector.replicate 32 9, 0)
    400000000).insert (List.Vector.replicate 32 8, 0) 700000000
  names := (∅ : Finmap fun _ : Bytes32 => Bytes).insert (List.Vector.replicate 32 1) [0x61]
  txInputs := (∅ : Finmap fun _ : Bytes32 => List Outpoint).insert (List.Vector.replicate 32 7)
    [(List.Vector.replicate 32 9, 0), (List.Vector.replicate 32 8, 0)]

def declined (buyer : UInt8) : Event where
  op := .offerDecline
  key := List.Vector.replicate 32 1
  txId := List.Vector.replicate 32 7
  block := zero32
  daa := 1
  time := 0
  fromKey := some (List.Vector.replicate 32 2)
  toKey := some (List.Vector.replicate 32 buyer)
  price := none
  years := none
  fee := none

def declinedTwice : Labelled declinedBatch where
  events := [(declined 3, some (List.Vector.replicate 32 9, 0)),
    (declined 4, some (List.Vector.replicate 32 8, 0))]
  own x hx _ := by
    rcases List.mem_pair.mp hx with rfl | rfl
    · exact ⟨_, by decide, rfl⟩
    · exact ⟨_, by decide, rfl⟩

/-- Both buyers are told under one dedup key. -/
theorem declined_twice_collides : ¬ ∃ env, PushesCorrect env declinedBatch declinedTwice := by
  rintro ⟨env, h⟩
  refine h.distinct _ List.mem_cons_self _ (List.mem_cons_of_mem _ List.mem_cons_self) (.inl rfl)
    (.inl rfl) (by decide) _ ((mem_exit_pushes (.inl rfl)).mpr ⟨[0x61], by decide, .inl ⟨_, rfl, rfl⟩⟩)
    _ ((mem_exit_pushes (.inl rfl)).mpr ⟨[0x61], by decide, .inl ⟨_, rfl, rfl⟩⟩) rfl

/-- The second buyer is told of the first one's amount. -/
example : amountOf declinedBatch (spentOffer declinedBatch (declined 4)) = some 400000000 := by decide

end KaChatIndexer.NamesPushes
