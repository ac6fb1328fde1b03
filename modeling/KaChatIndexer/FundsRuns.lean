import KaChatIndexer.ChatAcceptance
import KaChatIndexer.FundsDispatch
import KaChatIndexer.PushCoverage
import Mathlib.Algebra.Order.BigOperators.Group.List
import Mathlib.Algebra.Order.Group.Nat

/-!
# Runs of received-KAS pushes

Over a run of both actors, what the dispatcher decides is true of the transactions that the block
processor has handled, and whatever these pay to a watched address is decided or still waits.
-/
namespace KaChatIndexer.FundsRuns
open ByteStrings KaText PushFields PushAuth PushStored ChatRows ChatSlots FundsPushes FundsOutpoints
  FundsDispatch
open PushRegistry hiding step run
open ChatBlocks (RpcTransaction RpcTransactionOutput)
open ChatAcceptance (sampleEnv sampleId sampleScript)

/-! ## Watchers -/

section
variable {Address Ext : Type} (env : RegistryEnv Address AddressPayload)

def watchedBy (device : DeviceRegistration Ext) : List AddressPayload :=
  device.watchOnlyAddresses.filterMap (payloadOf env)

def watchers (r : Registry AddressPayload Ext) (a : AddressPayload) : List Text :=
  (r.devices.entries.filter fun entry => a ∈ watchedBy env entry.2).map (·.1)

variable {env} {r : Registry AddressPayload Ext}

theorem mem_entries {token : Text} {device : DeviceRegistration Ext} :
    (⟨token, device⟩ : Sigma fun _ : Text => DeviceRegistration Ext) ∈ r.devices.entries ↔
      r.devices.lookup token = some device :=
  (List.mem_dlookup_iff r.devices.nodupKeys).symm

theorem mem_watchOnlySet {a : AddressPayload} : a ∈ watchOnlySet env r ↔
    ∃ token device, r.devices.lookup token = some device ∧ a ∈ watchedBy env device := by
  show a ∈ (r.devices.entries.flatMap fun entry => watchedBy env entry.2).dedup ↔ _
  rw [List.mem_dedup, List.mem_flatMap]
  constructor
  · rintro ⟨⟨token, device⟩, hentry, ha⟩
    exact ⟨token, device, mem_entries.mp hentry, ha⟩
  · rintro ⟨token, device, hlookup, ha⟩
    exact ⟨⟨token, device⟩, mem_entries.mpr hlookup, ha⟩

/-- The devices that watch the address and none of the senders. -/
theorem mem_watchOnlyTokens (hfiled : Filed env r) {a : AddressPayload} {senders : List AddressPayload}
    {token : Text} : token ∈ watchOnlyTokens env r a senders ↔ ∃ device,
      r.devices.lookup token = some device ∧ a ∈ watchedBy env device ∧
        ∀ b ∈ watchedBy env device, b ∉ senders := by
  have hpasses (device : DeviceRegistration Ext) :
      (a ∈ watchedBy env device ∧ ¬(watchedBy env device).any (· ∈ senders)) ↔
        a ∈ watchedBy env device ∧ ∀ b ∈ watchedBy env device, b ∉ senders := by
    simp
  rw [watchOnlyTokens, List.mem_filterMap]
  constructor
  · rintro ⟨⟨key, device⟩, hentry, htoken⟩
    dsimp only at htoken
    split at htoken
    · next hmatch =>
      have hlookup := mem_entries.mp hentry
      obtain rfl := (hfiled key device hlookup).deviceToken.symm.trans (Option.some.inj htoken)
      exact ⟨device, hlookup, (hpasses device).mp hmatch⟩
    · cases htoken
  · rintro ⟨device, hlookup, hmatch⟩
    refine ⟨⟨token, device⟩, mem_entries.mpr hlookup, ?_⟩
    rw [← (hfiled token device hlookup).deviceToken]
    exact if_pos ((hpasses device).mpr hmatch)

theorem watchOnlyTokens_length_le (r : Registry AddressPayload Ext) (a : AddressPayload)
    (senders : List AddressPayload) :
    (watchOnlyTokens env r a senders).length ≤ (watchers env r a).length := by
  rw [watchOnlyTokens, List.length_filterMap_eq_countP, watchers, List.length_map,
    ← List.countP_eq_length_filter]
  refine List.countP_mono_left fun entry _ hsome => ?_
  dsimp only at hsome
  split at hsome
  · next hmatch => exact decide_eq_true hmatch.1
  · cases hsome

end

/-! ## What a run says -/

/-- The output at the place pays the address. -/
def PaysTo (chat : Env) (tx : RpcTransaction) (i : ℕ) (a : AddressPayload) : Prop :=
  ∃ output, tx.outputs[i]? = some output ∧ AddressPayload.tryFrom chat output.scriptPublicKey = some a

/-- An input spends an output that paid the address. -/
def SpendsFrom (chat : Env) (all : List RpcTransaction) (tx : RpcTransaction) (a : AddressPayload) :
    Prop :=
  ∃ o ∈ tx.inputs, ∃ parent ∈ all, parent.txId = o.txId ∧ PaysTo chat parent o.index a

def totalPaid (chat : Env) (tx : RpcTransaction) (a : AddressPayload) : ℕ :=
  ((tx.outputs.filter fun output => AddressPayload.tryFrom chat output.scriptPublicKey = some a).map
    (·.value)).sum

/-- Wherever a block has the transaction, its event finds room in the queue. -/
def HasRoom (events : List FundsEvent) (tx : RpcTransaction) : Prop :=
  ∀ b ∈ blocksOf events, ∀ s ∈ b.sightings, s.tx = tx → s.hasRoom = true

section
variable {chat : Env} {watch : List AddressPayload} {all : List RpcTransaction}

theorem pays_iff {tx : RpcTransaction} {i : ℕ} {a : AddressPayload} :
    Pays chat watch tx i a ↔ PaysTo chat tx i a ∧ a ∈ watch := by
  constructor
  · rintro ⟨output, houtput, ha, hwatch⟩
    exact ⟨⟨output, houtput, ha⟩, hwatch⟩
  · rintro ⟨⟨output, houtput, ha⟩, hwatch⟩
    exact ⟨output, houtput, ha, hwatch⟩

theorem spends_iff {tx : RpcTransaction} {a : AddressPayload} (hwatch : a ∈ watch) :
    Spends chat watch all tx a ↔ SpendsFrom chat all tx a := by
  simp only [Spends, SpendsFrom, pays_iff, hwatch, and_true]

/-- The one output that pays an address pays all of it. -/
theorem totalPaid_of_single {tx : RpcTransaction} {a : AddressPayload} {i : ℕ}
    {output : RpcTransactionOutput} (houtput : tx.outputs[i]? = some output)
    (ha : AddressPayload.tryFrom chat output.scriptPublicKey = some a)
    (hsingle : ∀ j, PaysTo chat tx j a → j = i) : totalPaid chat tx a = output.value := by
  obtain ⟨hi, hget⟩ := List.getElem?_eq_some_iff.mp houtput
  have hsplit : tx.outputs = tx.outputs.take i ++ output :: tx.outputs.drop (i + 1) := by
    rw [← hget, List.getElem_cons_drop, List.take_append_drop]
  have hnone {l : List RpcTransactionOutput}
      (hl : ∀ o ∈ l, AddressPayload.tryFrom chat o.scriptPublicKey ≠ some a) :
      l.filter (fun o => AddressPayload.tryFrom chat o.scriptPublicKey = some a) = [] :=
    List.filter_eq_nil_iff.mpr fun o ho hpays => hl o ho (of_decide_eq_true hpays)
  have hbefore : ∀ o ∈ tx.outputs.take i, AddressPayload.tryFrom chat o.scriptPublicKey ≠ some a := by
    intro o ho hpays
    obtain ⟨j, hj, rfl⟩ := List.mem_take_iff_getElem.mp ho
    have heq := hsingle j ⟨_, List.getElem?_eq_getElem (by omega), hpays⟩
    omega
  have hafter : ∀ o ∈ tx.outputs.drop (i + 1),
      AddressPayload.tryFrom chat o.scriptPublicKey ≠ some a := by
    intro o ho hpays
    obtain ⟨j, hj, rfl⟩ := List.mem_drop_iff_getElem.mp ho
    have heq := hsingle (i + 1 + j) ⟨_, List.getElem?_eq_getElem (by omega), hpays⟩
    omega
  rw [totalPaid, hsplit, List.filter_append, hnone hbefore, List.nil_append,
    List.filter_cons_of_pos (by simpa using ha), hnone hafter]
  simp

end

/-- What is decided of a push, given the pushes that were decided before. -/
structure Truthful {Address Ext : Type} (env : RegistryEnv Address AddressPayload)
    (r : Registry AddressPayload Ext) (chat : Env) (all : List RpcTransaction) (before : List FundsPush)
    (push : FundsPush) (tx : RpcTransaction) : Prop where
  pays : ∃ i, PaysTo chat tx i push.address
  amount : (∀ i j, PaysTo chat tx i push.address → PaysTo chat tx j push.address → i = j) →
    push.amount = totalPaid chat tx push.address
  nodup : push.sent.Nodup
  others : ∀ token ∈ push.sent, ∃ device, r.devices.lookup token = some device ∧
    push.address ∈ watchedBy env device ∧ ∀ b ∈ watchedBy env device, ¬ SpendsFrom chat all tx b
  reaches : ∀ token device, r.devices.lookup token = some device → push.address ∈ watchedBy env device →
    (∀ b ∈ watchedBy env device, ¬ SpendsFrom chat all tx b) →
    topicTakesPush device.apnsTopic "address_activity".toList = true →
    (watchers env r push.address).length ≤ maxPushFanout →
    ¬ Limited before token push.decidedMs → token ∈ push.sent

section
variable {Address Ext : Type} {env : RegistryEnv Address AddressPayload}
  {r : Registry AddressPayload Ext} {chat : Env} {all : List RpcTransaction}

theorem truthful_of_decided (hfiled : Filed env r) {event : FundsPushEvent} {tx : RpcTransaction}
    (htold : Told chat (watchOnlySet env r) all tx event) {before : List FundsPush} {push : FundsPush}
    (h : DecidedOf env r event before push) : Truthful env r chat all before push tx := by
  obtain ⟨i, output, houtput, hstandard, -, hvalue⟩ := htold.credited _ h.credit
  have hallowed : push.allowed.Nodup := (nodup_sortedSet _).sublist h.allowed
  -- a device that watches none of the senders spends nothing of its own
  have hspends {token : Text} {device : DeviceRegistration Ext}
      (hlookup : r.devices.lookup token = some device) :
      (∀ b ∈ watchedBy env device, b ∉ event.senders) ↔
        ∀ b ∈ watchedBy env device, ¬ SpendsFrom chat all tx b := by
    refine forall₂_congr fun b hb => not_congr ?_
    rw [htold.senders, spends_iff (mem_watchOnlySet.mpr ⟨token, device, hlookup, hb⟩)]
  refine ⟨⟨i, output, houtput, hstandard⟩, fun hsingle => ?_, ?_, fun token htoken => ?_,
    fun token device hlookup hwatches hothers htopic hfanout hunder => ?_⟩
  · rw [totalPaid_of_single houtput hstandard fun j hj => hsingle j i hj ⟨output, houtput, hstandard⟩,
      hvalue]
  · rw [h.sent]
    exact (hallowed.sublist (List.take_sublist _ _)).filter _
  · rw [h.sent] at htoken
    have hmem := h.allowed.subset (List.mem_of_mem_take (List.mem_filter.mp htoken).1)
    obtain ⟨device, hlookup, hwatches, hothers⟩ :=
      (mem_watchOnlyTokens hfiled).mp (mem_sortedSet.mp hmem)
    exact ⟨device, hlookup, hwatches, (hspends hlookup).mp hothers⟩
  · have htoken : token ∈ watchOnlyTokens env r push.address event.senders :=
      (mem_watchOnlyTokens hfiled).mpr ⟨device, hlookup, hwatches, (hspends hlookup).mpr hothers⟩
    have hlength : push.allowed.length ≤ maxPushFanout := by
      calc push.allowed.length
          ≤ (sortedSet (watchOnlyTokens env r push.address event.senders)).length := h.allowed.length_le
        _ ≤ (watchOnlyTokens env r push.address event.senders).length := by
          rw [sortedSet, List.length_insertionSort]
          exact (List.dedup_sublist _).length_le
        _ ≤ (watchers env r push.address).length := watchOnlyTokens_length_le r _ _
        _ ≤ maxPushFanout := hfanout
    rw [h.sent, List.take_of_length_le hlength]
    refine List.mem_filter.mpr ⟨(h.limit token htoken).resolve_right hunder, ?_⟩
    rw [hlookup]
    exact htopic

/-! ## The service -/

/-- An event of the transaction that credits the address waits. -/
def Pending (s : FundsService) (txId : TxId) (a : AddressPayload) : Prop :=
  (∃ event ∈ s.queue, event.txId = txId ∧ a ∈ event.credited.map Prod.fst) ∨
    ∃ entry ∈ s.dispatcher.remaining, entry.1.txId = txId ∧ entry.2.1 = a

def Decided (s : FundsService) (txId : TxId) (a : AddressPayload) : Prop :=
  ∃ push ∈ s.dispatcher.pushes, push.txId = txId ∧ push.address = a

/-- The service after a part of a run. -/
structure Serving (env : RegistryEnv Address AddressPayload) (encode : ℕ → Bytes → Text)
    (r : Registry AddressPayload Ext) (chat : Env) (events before : List FundsEvent) (s : FundsService) :
    Prop where
  watching : Watching chat (watchOnlySet env r) events before s.processor
  queued : ∀ event ∈ s.queue, ∃ tx ∈ sighted events,
    Told chat (watchOnlySet env r) (sighted events) tx event
  remaining : ∀ entry ∈ s.dispatcher.remaining, entry.2 ∈ entry.1.credited ∧ ∃ tx ∈ sighted events,
    Told chat (watchOnlySet env r) (sighted events) tx entry.1
  deciding : ∀ top, (∀ n ∈ instants before, n ≤ top) →
    Deciding env encode r chat (sighted events) top s.dispatcher
  answered : ∀ tx ∈ sighted before, HasRoom events tx → ∀ i a, Pays chat (watchOnlySet env r) tx i a →
    Pending s tx.txId a ∨ Decided s tx.txId a

theorem serving_new (env : RegistryEnv Address AddressPayload) (encode : ℕ → Bytes → Text)
    (r : Registry AddressPayload Ext) (chat : Env) (events : List FundsEvent) :
    Serving env encode r chat events [] FundsService.new where
  watching := watching_new chat (watchOnlySet env r) events
  queued event hevent := by cases hevent
  remaining entry hentry := by cases hentry
  deciding top _ := {
    cache := {
      keys := by simp [FundsService.new, ChatRows.get]
      nodup := List.nodup_nil
      known := by simp [FundsService.new]
      held := by simp [FundsService.new] }
    rate := fun token => List.suffix_rfl
    sorted := List.Pairwise.nil
    bounded := by simp [FundsService.new]
    once := List.Pairwise.nil
    decided := by simp [FundsService.new] }
  answered tx htx := by cases htx

variable {encode : ℕ → Bytes → Text} {events before after : List FundsEvent} {s : FundsService}

theorem serving_block (horderly : Orderly events) (hintime : InTime events) {b : BlockRun}
    (hsplit : events = before ++ .block b :: after) (h : Serving env encode r chat events before s) :
    Serving env encode r chat events (before ++ [.block b]) (step env encode r chat s (.block b)) := by
  obtain ⟨hwatching, htold, hcomplete⟩ := watching_block horderly hintime hsplit h.watching
  have hblocks : blocksOf events = blocksOf before ++ b :: blocksOf after := by
    rw [hsplit, blocksOf_append]
    rfl
  have hinstants : instants (before ++ [.block b]) = instants before := by simp [instants]
  have hkeep {tx : RpcTransaction} {a : AddressPayload} (hanswer : Pending s tx.txId a ∨ Decided s tx.txId a) :
      Pending (step env encode r chat s (.block b)) tx.txId a ∨
        Decided (step env encode r chat s (.block b)) tx.txId a := by
    rcases hanswer with (⟨event, hevent, hpaid⟩ | hremaining) | hdecided
    · exact .inl (.inl ⟨event, List.mem_append_left _ hevent, hpaid⟩)
    · exact .inl (.inr hremaining)
    · exact .inr hdecided
  refine ⟨hwatching, fun event hevent => ?_, h.remaining, fun top htop => h.deciding top (hinstants ▸ htop),
    fun tx htx hroom i a hpays => ?_⟩
  · rcases List.mem_append.mp hevent with hevent | hevent
    · exact h.queued event hevent
    · exact htold event hevent
  · rw [sighted_append] at htx
    rcases List.mem_append.mp htx with htx | htx
    · exact hkeep (h.answered tx htx hroom i a hpays)
    · have hmem : tx ∈ txsOf b := by simpa [sighted, blocksOf] using htx
      by_cases hknown : ∃ b' ∈ blocksOf before, b'.committed = true ∧ b'.header.hash = b.header.hash
      · -- the block was handled before, and all its transactions with it
        obtain ⟨b', hb', -, hhash⟩ := hknown
        have hsame : txsOf b' = txsOf b := horderly.hashes b' (by simp [hblocks, hb']) b
          (by simp [hblocks]) hhash
        have hbefore : tx ∈ sighted before := List.mem_flatMap.mpr ⟨b', hb', hsame ▸ hmem⟩
        exact hkeep (h.answered tx hbefore hroom i a hpays)
      · push Not at hknown
        obtain ⟨sighting, hsighting, rfl⟩ := List.mem_map.mp hmem
        obtain ⟨event, hevent, hpaid⟩ := hcomplete hknown sighting hsighting
          (hroom b (by simp [hblocks]) sighting hsighting rfl) i a hpays
        exact .inl (.inl ⟨event, List.mem_append_right _ hevent, hpaid⟩)

theorem serving_take (h : Serving env encode r chat events before s) :
    Serving env encode r chat events (before ++ [.take]) (step env encode r chat s .take) := by
  have hblocks : blocksOf (before ++ [.take]) = blocksOf before := by simp [blocksOf]
  have hinstants : instants (before ++ [.take]) = instants before := by simp [instants]
  have hsighted : sighted (before ++ [.take]) = sighted before := by rw [sighted, hblocks, sighted]
  have hwatching := h.watching.of_blocks hblocks
  unfold step
  dsimp only
  split
  · next event queue hremaining hqueue =>
    refine ⟨hwatching, fun e he => ?_, fun entry hentry => ?_, fun top htop => ?_,
      fun tx htx hroom i a hpays => ?_⟩
    · exact h.queued e (by rw [hqueue]; exact List.mem_cons_of_mem _ he)
    · obtain ⟨c, hc, rfl⟩ := List.mem_map.mp hentry
      exact ⟨hc, h.queued event (by rw [hqueue]; exact List.mem_cons_self)⟩
    · exact { h.deciding top (hinstants ▸ htop) with }
    · rcases h.answered tx (hsighted ▸ htx) hroom i a hpays with (⟨e, he, hid, ha⟩ | hwaits) | hdecided
      · rw [hqueue] at he
        rcases List.mem_cons.mp he with rfl | he
        · obtain ⟨c, hc, rfl⟩ := List.mem_map.mp ha
          exact .inl (.inr ⟨(e, c), List.mem_map_of_mem hc, hid, rfl⟩)
        · exact .inl (.inl ⟨e, he, hid, ha⟩)
      · obtain ⟨entry, hentry, -⟩ := hwaits
        rw [hremaining] at hentry
        cases hentry
      · exact .inr hdecided
  · exact ⟨hwatching, h.queued, h.remaining, fun top htop => h.deciding top (hinstants ▸ htop),
      fun tx htx => h.answered tx (hsighted ▸ htx)⟩

theorem handleCredit_remaining (d : PushDispatcher) (event : FundsPushEvent) (credit : AddressPayload × ℕ)
    (markMs nowMs : ℕ) : (handleCredit env encode r d event credit markMs nowMs).remaining = d.remaining := by
  unfold handleCredit
  split
  · rfl
  · dsimp only
    split <;> rfl

theorem serving_credit (hencode : ∀ v b v' b', encode v b = encode v' b' → v = v' ∧ b = b')
    (horderly : Orderly events) {markMs nowMs : ℕ} (hsplit : events = before ++ .credit markMs nowMs :: after)
    (h : Serving env encode r chat events before s) :
    Serving env encode r chat events (before ++ [.credit markMs nowMs])
      (step env encode r chat s (.credit markMs nowMs)) := by
  have hblocks : blocksOf (before ++ [.credit markMs nowMs]) = blocksOf before := by simp [blocksOf]
  have hinstants : instants (before ++ [.credit markMs nowMs]) = instants before ++ [markMs, nowMs] := by
    simp [instants]
  have hsighted : sighted (before ++ [.credit markMs nowMs]) = sighted before := by
    rw [sighted, hblocks, sighted]
  have hclock : (instants before ++ [markMs, nowMs]).Pairwise (· ≤ ·) := by
    have hall := horderly.instants
    have hmore : instants events = instants before ++ [markMs, nowMs] ++ instants after := by
      rw [hsplit, ← hinstants, instants, instants, instants, ← List.flatMap_append, List.append_assoc]
      rfl
    rw [hmore] at hall
    exact (List.pairwise_append.mp hall).1
  obtain ⟨-, hlast, hearlier⟩ := List.pairwise_append.mp hclock
  have hnow : markMs ≤ nowMs := List.rel_of_pairwise_cons hlast List.mem_cons_self
  unfold step
  dsimp only
  split
  · refine ⟨h.watching.of_blocks hblocks, h.queued, h.remaining, fun top htop => ?_,
      fun tx htx => h.answered tx (hsighted ▸ htx)⟩
    exact h.deciding top fun n hn => htop n (by rw [hinstants]; exact List.mem_append_left _ hn)
  · next event credit remaining hremaining =>
    obtain ⟨hcredit, tx, htx, htold⟩ := h.remaining (event, credit) (by rw [hremaining]; exact List.mem_cons_self)
    have hmark := h.deciding markMs fun n hn => hearlier n hn markMs List.mem_cons_self
    have hmark' : Deciding env encode r chat (sighted events) markMs
        { s.dispatcher with remaining := remaining } := { hmark with }
    obtain ⟨hdeciding, ⟨push, hpush, hid, haddress⟩, hprefix⟩ :=
      deciding_credit hencode hmark' htx htold hcredit le_rfl hnow
    refine ⟨h.watching.of_blocks hblocks, h.queued, fun entry hentry => ?_, fun top htop => ?_,
      fun tx' htx' hroom i a hpays => ?_⟩
    · rw [handleCredit_remaining] at hentry
      exact h.remaining entry (by rw [hremaining]; exact List.mem_cons_of_mem _ hentry)
    · exact hdeciding.mono (htop nowMs (by rw [hinstants]; simp))
    · rcases h.answered tx' (hsighted ▸ htx') hroom i a hpays with (hqueued | hwaits) | hdecided
      · exact .inl (.inl hqueued)
      · obtain ⟨entry, hentry, hid', ha⟩ := hwaits
        rw [hremaining] at hentry
        rcases List.mem_cons.mp hentry with rfl | hentry
        · exact .inr ⟨push, hpush, hid.trans hid', haddress.trans ha⟩
        · refine .inl (.inr ⟨entry, ?_, hid', ha⟩)
          rwa [handleCredit_remaining]
      · obtain ⟨push', hpush', hsame⟩ := hdecided
        exact .inr ⟨push', hprefix.subset hpush', hsame⟩

theorem serving_step (hencode : ∀ v b v' b', encode v b = encode v' b' → v = v' ∧ b = b')
    (horderly : Orderly events) (hintime : InTime events) {e : FundsEvent} (hsplit : events = before ++ e :: after)
    (h : Serving env encode r chat events before s) :
    Serving env encode r chat events (before ++ [e]) (step env encode r chat s e) := by
  cases e with
  | block b => exact serving_block horderly hintime hsplit h
  | take => exact serving_take h
  | credit markMs nowMs => exact serving_credit hencode horderly hsplit h

theorem serving_run (hencode : ∀ v b v' b', encode v b = encode v' b' → v = v' ∧ b = b')
    (horderly : Orderly events) (hintime : InTime events) (hsplit : events = before ++ after) :
    Serving env encode r chat events before (run env encode r chat before) := by
  induction before using List.reverseRecOn generalizing after with
  | nil => exact serving_new env encode r chat events
  | append_singleton before e ih =>
    have hsplit' : events = before ++ e :: after := by rw [hsplit, List.append_assoc]; rfl
    rw [run, List.foldl_append]
    exact serving_step hencode horderly hintime hsplit' (ih hsplit')

/-- Of any registrations and any orderly run, what is sent is true and goes to no sender, and a device
that is under its limit and takes these pushes misses none. -/
theorem received_tells [DecidableEq Ext] (henv : LawfulAddresses env.toAddressEnv)
    (hencode : ∀ v b v' b', encode v b = encode v' b' → v = v' ∧ b = b')
    {commands : List (Command AddressPayload Ext)}
    (hr : PushRegistry.run env Registry.new commands = r) (horderly : Orderly events)
    (hintime : InTime events) :
    ((run env encode r chat events).dispatcher.pushes.Pairwise fun p q =>
        p.txId = q.txId → p.address = q.address → p.markedMs + sentTtlMs < q.markedMs) ∧
      (∀ before push after, (run env encode r chat events).dispatcher.pushes = before ++ push :: after →
        ∃ tx ∈ sighted events, tx.txId = push.txId ∧
          Truthful env r chat (sighted events) before push tx) ∧
      ∀ tx ∈ sighted events, HasRoom events tx → ∀ i a, PaysTo chat tx i a →
        (∃ token device, r.devices.lookup token = some device ∧ a ∈ watchedBy env device) →
        Pending (run env encode r chat events) tx.txId a ∨
          Decided (run env encode r chat events) tx.txId a := by
  have hfiled : Filed env r := hr ▸ filed_run henv (filed_new env) commands
  have hserving := @serving_run _ _ env r chat _ _ _ [] hencode horderly hintime
    (List.append_nil events).symm
  obtain ⟨top, htop⟩ : ∃ top, ∀ n ∈ instants events, n ≤ top :=
    ⟨(instants events).sum, fun n hn => List.single_le_sum (fun _ _ => Nat.zero_le _) n hn⟩
  have hdeciding := hserving.deciding top htop
  refine ⟨hdeciding.once, fun before push after hsplit => ?_, fun tx htx hroom i a hpays hwatched => ?_⟩
  · obtain ⟨event, tx, htx, htold, hdecided⟩ := hdeciding.decided before push after hsplit
    exact ⟨tx, htx, htold.txId.symm.trans hdecided.txId.symm, truthful_of_decided hfiled htold hdecided⟩
  · exact hserving.answered tx htx hroom i a (pays_iff.mpr ⟨hpays, mem_watchOnlySet.mpr hwatched⟩)

end

/-! ## A wallet that spends its own coin -/

/-- An address is the text of its bytes after its version. -/
def sampleEncode (version : ℕ) (payload : Bytes) : Text :=
  List.replicate version 'v' ++ ':' :: hexEncode payload

theorem sampleEncode_inj : ∀ v b v' b', sampleEncode v b = sampleEncode v' b' → v = v' ∧ b = b' := by
  intro v b v' b' h
  have hnone (n : ℕ) : (List.replicate n 'v').count ':' = 0 := by simp [List.count_replicate]
  obtain ⟨hversion, hpayload⟩ := PushSigned.append_cons_inj h (by rw [hnone, hnone])
  refine ⟨?_, PushSigned.hexEncode_injective hpayload⟩
  simpa using congrArg List.length hversion

def walletAddress : AddressPayload := ⟨255, payload33 (List.replicate 32 7)⟩

def walletEnv : RegistryEnv Text AddressPayload :=
  { PushCoverage.plainEnv with
    payload := fun _ => some walletAddress
    allowedApnsTopics := walletApnsTopics }

theorem walletEnv_lawful : LawfulAddresses walletEnv.toAddressEnv :=
  ⟨PushCoverage.plainEnv_lawful.chars, PushCoverage.plainEnv_lawful.reads⟩

def walletToken : Text := List.replicate 64 'c'

/-- One device that watches the wallet's address, in the app of the topic. -/
def watchCommand (topic : Option Text) : Command AddressPayload Unit :=
  .register "ios".toList
    { token := walletToken
      watchedAddresses := []
      watchedGroupIds := []
      capabilities := []
      primaryAddress := none
      aliases := []
      extension := ()
      watchOnlyAddresses := ["kaspa:q".toList]
      apnsEnvironment := none
      voipToken := none
      webPush := none
      apnsTopic := topic
      androidChannelId := none
      walletBinding := none
      deviceKeyBinding := none } 0 (.ok ())

def watchRegistry (topic : Option Text) : Registry AddressPayload Unit :=
  PushRegistry.run walletEnv Registry.new [watchCommand topic]

def sampleTx (id : UInt8) (spends : List UInt8) : RpcTransaction where
  txId := sampleId id
  inputs := spends.map fun parent => ⟨sampleId parent, 0⟩
  outputs := [⟨5, sampleScript 7⟩]
  payload := []

def payment : RpcTransaction := sampleTx 2 []

def ownSpend : RpcTransaction := sampleTx 3 [2]

def sampleBlock (hash : UInt8) (tx : RpcTransaction) (unixMs : ℕ) : BlockRun where
  header := ⟨sampleId hash, 1, 1, 1⟩
  sightings := [⟨tx, unixMs, true⟩]
  instantMs := unixMs
  unixMs := unixMs
  committed := true

/-- The wallet is paid and spends the coin, and the spend is sighted once more. -/
def ownRun (again : ℕ) : List FundsEvent :=
  [.block (sampleBlock 1 payment 0), .block (sampleBlock 2 ownSpend 0),
    .block (sampleBlock 3 ownSpend again), .take, .credit 0 0, .take, .credit 0 0, .take,
    .credit again again]

def serve (topic : Option Text) (again : ℕ) : FundsService :=
  run walletEnv sampleEncode (watchRegistry topic) sampleEnv (ownRun again)

theorem blocksOf_ownRun (again : ℕ) : blocksOf (ownRun again) =
    [sampleBlock 1 payment 0, sampleBlock 2 ownSpend 0, sampleBlock 3 ownSpend again] := rfl

theorem sighted_ownRun (again : ℕ) : sighted (ownRun again) = [payment, ownSpend, ownSpend] := rfl

theorem ownRun_orderly (again : ℕ) : Orderly (ownRun again) where
  hashes := by
    have h12 : sampleId 1 ≠ sampleId 2 := by decide
    have h13 : sampleId 1 ≠ sampleId 3 := by decide
    have h23 : sampleId 2 ≠ sampleId 3 := by decide
    simp [blocksOf_ownRun, sampleBlock, txsOf, h12, h13, h23, h12.symm, h13.symm, h23.symm]
  ids := by
    rw [sighted_ownRun]
    decide
  wall := by simp [wallReadings, blocksOf, ownRun, sampleBlock]
  instants := by simp [instants, ownRun]
  parents before b after hsplit pre s post hsightings o ho parent hparent hid := by
    cases before with
    | nil =>
      obtain ⟨hb, -⟩ := List.cons.inj hsplit
      obtain rfl := FundsEvent.block.inj hb
      have hs : s ∈ [(⟨payment, 0, true⟩ : FundsSighting)] := by
        show s ∈ (sampleBlock 1 payment 0).sightings
        rw [hsightings]
        exact List.mem_append_right _ List.mem_cons_self
      obtain rfl := List.mem_singleton.mp hs
      cases ho
    | cons e before =>
      obtain ⟨rfl, -⟩ := List.cons.inj hsplit
      have hb : b ∈ blocksOf (ownRun again) := by
        rw [hsplit, blocksOf_append]
        exact List.mem_append_right _ List.mem_cons_self
      have htx : s.tx ∈ sighted (ownRun again) := by
        refine List.mem_flatMap.mpr ⟨b, hb, List.mem_map_of_mem ?_⟩
        rw [hsightings]
        exact List.mem_append_right _ List.mem_cons_self
      -- every coin that is spent is the payment's
      have hcoins : ∀ tx ∈ sighted (ownRun again), ∀ o ∈ tx.inputs, o.txId = payment.txId := by
        rw [sighted_ownRun]
        decide
      have hids : ∀ tx ∈ sighted (ownRun again), tx.txId = payment.txId → tx = payment := by
        rw [sighted_ownRun]
        decide
      obtain rfl := hids parent hparent (hid.trans (hcoins s.tx htx o ho))
      exact .inl ⟨sampleBlock 1 payment 0, List.mem_cons_self, rfl, List.mem_singleton_self _⟩

theorem ownRun_intime {again : ℕ} (h : again ≤ watchedSpendRetentionMs) : InTime (ownRun again) := by
  have hreadings : spendReadings (ownRun again) =
      [(⟨sampleId 2, 0⟩, 0), (⟨sampleId 2, 0⟩, again)] := rfl
  intro o t t' ht ht'
  rw [hreadings] at ht ht'
  have hle : t' ≤ again := by
    rcases List.mem_cons.mp ht' with heq | hmem
    · obtain ⟨-, rfl⟩ := Prod.mk.inj heq
      exact Nat.zero_le _
    · obtain ⟨-, rfl⟩ := Prod.mk.inj (List.mem_singleton.mp hmem)
      exact le_rfl
  omega

theorem ownSpend_spends (again : ℕ) :
    SpendsFrom sampleEnv (sighted (ownRun again)) ownSpend walletAddress :=
  ⟨⟨sampleId 2, 0⟩, by decide, payment, by simp [sighted_ownRun], rfl, ⟨5, sampleScript 7⟩, rfl, by decide⟩

theorem watchedBy_wallet {device : DeviceRegistration Unit} {a : AddressPayload}
    (h : a ∈ watchedBy walletEnv device) : a = walletAddress := by
  obtain ⟨address, -, hpayload⟩ := List.mem_filterMap.mp h
  unfold PushRegistry.payloadOf addressToPayload at hpayload
  cases hparse : walletEnv.parse address with
  | none =>
    rw [hparse] at hpayload
    cases hpayload
  | some parsed =>
    rw [hparse] at hpayload
    exact (Option.some.inj hpayload).symm

theorem wallet_watches (topic : Option Text)
    (h : ((watchRegistry topic).devices.lookup walletToken).any
      fun device => walletAddress ∈ watchedBy walletEnv device) :
    ∃ device, (watchRegistry topic).devices.lookup walletToken = some device ∧
      walletAddress ∈ watchedBy walletEnv device := by
  obtain ⟨device, hlookup, hwatches⟩ := (Option.any_eq_true _ _).mp h
  exact ⟨device, hlookup, of_decide_eq_true hwatches⟩

def walletTopic : Text := "com.kachat.wallet".toList

/-- The wallet is told of the payment alone. -/
theorem wallet_told :
    Decided (serve (some walletTopic) 1) payment.txId walletAddress ∧
      ∀ push ∈ (serve (some walletTopic) 1).dispatcher.pushes, walletToken ∈ push.sent →
        push.txId = payment.txId := by
  obtain ⟨-, htruthful, hanswered⟩ := @received_tells _ _ walletEnv (watchRegistry (some walletTopic))
    sampleEnv sampleEncode (ownRun 1) _ walletEnv_lawful sampleEncode_inj _ rfl (ownRun_orderly 1)
    (ownRun_intime (by decide))
  constructor
  · have hroom : HasRoom (ownRun 1) payment := by simp [HasRoom, blocksOf_ownRun, sampleBlock]
    have hqueue : (serve (some walletTopic) 1).queue = [] := List.isEmpty_iff.mp (by decide +kernel)
    have hremaining : (serve (some walletTopic) 1).dispatcher.remaining = [] :=
      List.isEmpty_iff.mp (by decide +kernel)
    have hanswer := hanswered payment (by simp [sighted_ownRun]) hroom 0 walletAddress
      ⟨⟨5, sampleScript 7⟩, rfl, by decide⟩ ⟨_, wallet_watches (some walletTopic) (by decide +kernel)⟩
    refine hanswer.resolve_left ?_
    rintro (⟨event, hevent, -⟩ | ⟨entry, hentry, -⟩)
    · exact absurd hevent (hqueue ▸ List.not_mem_nil)
    · exact absurd hentry (hremaining ▸ List.not_mem_nil)
  · intro push hpush hsent
    obtain ⟨before, after, hsplit⟩ := List.append_of_mem hpush
    obtain ⟨tx, htx, hid, htells⟩ := htruthful before push after hsplit
    obtain ⟨device, -, hwatches, hothers⟩ := htells.others walletToken hsent
    obtain rfl | rfl : tx = payment ∨ tx = ownSpend := by simpa [sighted_ownRun] using htx
    · exact hid.symm
    · exact absurd (watchedBy_wallet hwatches ▸ ownSpend_spends 1) (hothers _ hwatches)

/-- A device of another app is told nothing, and a spend that is sighted once more after its time is
told to the wallet that spends. -/
theorem received_untold :
    (Orderly (ownRun 1) ∧ PaysTo sampleEnv payment 0 walletAddress ∧
      (∃ device, (watchRegistry none).devices.lookup walletToken = some device ∧
        walletAddress ∈ watchedBy walletEnv device) ∧
      (∀ a, ¬ SpendsFrom sampleEnv (sighted (ownRun 1)) payment a) ∧
      (serve none 1).queue = [] ∧ (serve none 1).dispatcher.remaining = [] ∧
      (serve none 1).dispatcher.pushes.length < watchOnlyRateMax ∧
      ∀ push ∈ (serve none 1).dispatcher.pushes, walletToken ∉ push.sent) ∧
    (Orderly (ownRun (watchedSpendRetentionMs + 1)) ∧
      SpendsFrom sampleEnv (sighted (ownRun (watchedSpendRetentionMs + 1))) ownSpend walletAddress ∧
      (∃ device, (watchRegistry (some walletTopic)).devices.lookup walletToken = some device ∧
        walletAddress ∈ watchedBy walletEnv device) ∧
      ∃ push ∈ (serve (some walletTopic) (watchedSpendRetentionMs + 1)).dispatcher.pushes,
        push.txId = ownSpend.txId ∧ walletToken ∈ push.sent) := by
  have huntold : (serve none 1).dispatcher.pushes.all (fun push => walletToken ∉ push.sent) = true := by
    decide +kernel
  have hself : (serve (some walletTopic) (watchedSpendRetentionMs + 1)).dispatcher.pushes.any
      (fun push => push.txId = ownSpend.txId ∧ walletToken ∈ push.sent) = true := by decide +kernel
  refine ⟨⟨ownRun_orderly 1, ⟨⟨5, sampleScript 7⟩, rfl, by decide⟩, wallet_watches none (by decide +kernel),
    ?_, ?_, ?_, ?_, fun push hpush => ?_⟩, ownRun_orderly _, ownSpend_spends _,
    wallet_watches (some walletTopic) (by decide +kernel), ?_⟩
  · rintro a ⟨o, ho, -⟩
    cases ho
  · exact List.isEmpty_iff.mp (by decide +kernel)
  · exact List.isEmpty_iff.mp (by decide +kernel)
  · decide +kernel
  · exact of_decide_eq_true (List.all_eq_true.mp huntold push hpush)
  · obtain ⟨push, hpush, htold⟩ := List.any_eq_true.mp hself
    exact ⟨push, hpush, of_decide_eq_true htold⟩

end KaChatIndexer.FundsRuns
