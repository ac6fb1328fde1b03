import KaChatIndexer.FundsPushes
import KaChatIndexer.ChatSlots

/-!
# Watched outpoints and their spends

What the block processor keeps of watched outpoints tells, of each transaction, which watched addresses
it spends from.
-/
namespace KaChatIndexer.FundsOutpoints
open ByteStrings PushRegistry ChatRows ChatSlots FundsPushes
open ChatBlocks (Outpoint RpcTransaction RpcTransactionOutput)

/-! ## Rows -/

theorem get_eraseAll {α κ ν : Type} [DecidableEq κ] (keyOf : α → κ) (l : List α) (rows : Partition κ ν)
    (k : κ) : get (l.foldl (fun rows x => erase rows (keyOf x)) rows) k =
      if k ∈ l.map keyOf then none else get rows k := by
  induction l generalizing rows with
  | nil => simp
  | cons x l ih =>
    rw [List.foldl_cons, ih, get_erase]
    by_cases hk : k = keyOf x
    · simp [hk]
    · simp [hk]

/-- An outpoint that is credited holds its address, and any other what it held. -/
theorem get_credits (txId : TxId) (credits : List (ℕ × AddressPayload × ℕ))
    (rows : Partition Outpoint AddressPayload) (o : Outpoint) :
    (∃ c ∈ credits, o = ⟨txId, c.1⟩ ∧
        get (credits.foldl (fun rows c => put rows ⟨txId, c.1⟩ c.2.1) rows) o = some c.2.1) ∨
      ((∀ c ∈ credits, o ≠ ⟨txId, c.1⟩) ∧
        get (credits.foldl (fun rows c => put rows ⟨txId, c.1⟩ c.2.1) rows) o = get rows o) := by
  induction credits generalizing rows with
  | nil => exact .inr ⟨by simp, rfl⟩
  | cons c credits ih =>
    rw [List.foldl_cons]
    rcases ih (put rows ⟨txId, c.1⟩ c.2.1) with ⟨c', hc', ho, hget⟩ | ⟨hother, hget⟩
    · exact .inl ⟨c', List.mem_cons_of_mem _ hc', ho, hget⟩
    · rw [hget, get_put]
      by_cases ho : o = ⟨txId, c.1⟩
      · exact .inl ⟨c, List.mem_cons_self, ho, if_pos ho⟩
      · exact .inr ⟨List.forall_mem_cons.mpr ⟨ho, hother⟩, if_neg ho⟩

theorem mem_sendersOf {rows : Partition Outpoint AddressPayload} {inputs : List Outpoint}
    {a : AddressPayload} : a ∈ sendersOf rows inputs ↔ ∃ o ∈ inputs, get rows o = some a := by
  have hfold (l senders : List AddressPayload) :
      a ∈ l.foldl (fun senders a => if a ∈ senders then senders else senders ++ [a]) senders ↔
        a ∈ senders ∨ a ∈ l := by
    induction l generalizing senders with
    | nil => simp
    | cons b l ih =>
      rw [List.foldl_cons, ih, List.mem_cons]
      split
      · next hb =>
        constructor
        · rintro (ha | ha)
          · exact .inl ha
          · exact .inr (.inr ha)
        · rintro (ha | rfl | ha)
          · exact .inl ha
          · exact .inl hb
          · exact .inr ha
      · rw [List.mem_append, List.mem_singleton, or_assoc]
  rw [sendersOf, hfold, List.mem_filterMap]
  simp

/-! ## Payments -/

/-- The output at the place pays the watched address. -/
def Pays (chat : Env) (watch : List AddressPayload) (tx : RpcTransaction) (i : ℕ) (a : AddressPayload) :
    Prop :=
  ∃ output, tx.outputs[i]? = some output ∧
    AddressPayload.tryFrom chat output.scriptPublicKey = some a ∧ a ∈ watch

/-- An input spends an output that paid the watched address. -/
def Spends (chat : Env) (watch : List AddressPayload) (all : List RpcTransaction) (tx : RpcTransaction)
    (a : AddressPayload) : Prop :=
  ∃ o ∈ tx.inputs, ∃ parent ∈ all, parent.txId = o.txId ∧ Pays chat watch parent o.index a

section
variable {chat : Env} {watch : List AddressPayload} {all : List RpcTransaction}

theorem Pays.unique {tx : RpcTransaction} {i : ℕ} {a b : AddressPayload} (h : Pays chat watch tx i a)
    (h' : Pays chat watch tx i b) : a = b := by
  obtain ⟨output, houtput, ha, -⟩ := h
  obtain ⟨output', houtput', hb, -⟩ := h'
  obtain rfl := Option.some.inj (houtput.symm.trans houtput')
  exact Option.some.inj (ha.symm.trans hb)

theorem mem_creditsOf {outputs : List RpcTransactionOutput} {i v : ℕ} {a : AddressPayload} :
    (i, a, v) ∈ creditsOf chat watch outputs ↔ ∃ output, outputs[i]? = some output ∧
      AddressPayload.tryFrom chat output.scriptPublicKey = some a ∧ a ∈ watch ∧ output.value = v := by
  simp only [creditsOf, List.mem_filterMap, Option.map_eq_some_iff, Option.filter_eq_some_iff,
    decide_eq_true_eq, Prod.exists, List.mem_zipIdx_iff_getElem?, Prod.mk.injEq]
  constructor
  · rintro ⟨output, j, houtput, b, ⟨hb, hwatch⟩, rfl, rfl, rfl⟩
    exact ⟨output, houtput, hb, hwatch, rfl⟩
  · rintro ⟨output, houtput, ha, hwatch, rfl⟩
    exact ⟨output, i, houtput, a, ⟨ha, hwatch⟩, rfl, rfl, rfl⟩

theorem pays_iff_credit {tx : RpcTransaction} {i : ℕ} {a : AddressPayload} :
    Pays chat watch tx i a ↔ ∃ v, (i, a, v) ∈ creditsOf chat watch tx.outputs := by
  constructor
  · rintro ⟨output, houtput, ha, hwatch⟩
    exact ⟨output.value, mem_creditsOf.mpr ⟨output, houtput, ha, hwatch, rfl⟩⟩
  · rintro ⟨v, hv⟩
    obtain ⟨output, houtput, ha, hwatch, -⟩ := mem_creditsOf.mp hv
    exact ⟨output, houtput, ha, hwatch⟩

/-! ## The ledger -/

/-- What is kept, once the transactions are handled and no clock reading is past `top`: only outpoints
that were paid, only spends that were read, and every outpoint of what is handled but those whose spend
has been kept for its time. -/
structure Ledger (chat : Env) (watch : List AddressPayload) (all : List RpcTransaction)
    (readings : List (Outpoint × ℕ)) (handled : RpcTransaction → Prop) (top : ℕ) (db : WatchedDb) :
    Prop where
  sound : ∀ o a, get db.watchedOutpoints o = some a →
    ∃ tx ∈ all, tx.txId = o.txId ∧ Pays chat watch tx o.index a
  spends : ∀ k ∈ db.spends, (k.outpoint, k.spentAtMs) ∈ readings
  kept : ∀ tx, handled tx → ∀ i a, Pays chat watch tx i a →
    get db.watchedOutpoints ⟨tx.txId, i⟩ = some a ∨
      ∃ t, (⟨tx.txId, i⟩, t) ∈ readings ∧ t + watchedSpendRetentionMs < top

variable {readings : List (Outpoint × ℕ)} {handled : RpcTransaction → Prop} {top : ℕ}

theorem Ledger.mono {db : WatchedDb} (h : Ledger chat watch all readings handled top db) {top' : ℕ}
    (htop : top ≤ top') : Ledger chat watch all readings handled top' db where
  sound := h.sound
  spends := h.spends
  kept tx htx i a hpays := by
    rcases h.kept tx htx i a hpays with hget | ⟨t, ht, hpast⟩
    · exact .inl hget
    · exact .inr ⟨t, ht, hpast.trans_le htop⟩

theorem mem_spentBefore {spends : List WatchedOutpointSpendKey} {cutoffMs limit : ℕ}
    {k : WatchedOutpointSpendKey} (h : k ∈ spentBefore spends cutoffMs limit) :
    k ∈ spends ∧ k.spentAtMs < cutoffMs := by
  have hfilter := List.mem_insertionSort _ |>.mp (List.mem_of_mem_take h)
  obtain ⟨hmem, hbefore⟩ := List.mem_filter.mp hfilter
  exact ⟨hmem, of_decide_eq_true hbefore⟩

theorem ledger_prune {p : BlockProcessor} (h : Ledger chat watch all readings handled top p.db)
    (instantMs : ℕ) {unixMs : ℕ} (htop : top ≤ unixMs) :
    Ledger chat watch all readings handled unixMs (pruneWatchedSpends p instantMs unixMs).db := by
  unfold pruneWatchedSpends
  split
  · exact h.mono htop
  · dsimp only
    refine ⟨fun o a hget => ?_, fun k hk => h.spends k (mem_removeRows.mp hk).1,
      fun tx htx i a hpays => ?_⟩
    · rw [get_eraseAll] at hget
      split at hget
      · cases hget
      · exact h.sound o a hget
    · rw [get_eraseAll]
      split
      · next hexpired =>
        obtain ⟨k, hk, hkey⟩ := List.mem_map.mp hexpired
        obtain ⟨hmem, hbefore⟩ := mem_spentBefore hk
        refine .inr ⟨k.spentAtMs, hkey ▸ h.spends k hmem, ?_⟩
        omega
      · rcases h.kept tx htx i a hpays with hget | ⟨t, ht, hpast⟩
        · exact .inl hget
        · exact .inr ⟨t, ht, hpast.trans_le htop⟩

theorem ledger_emit {db : WatchedDb} (h : Ledger chat watch all readings handled top db)
    (hids : ∀ tx ∈ all, ∀ tx' ∈ all, tx.txId = tx'.txId → tx = tx') (hall : ∀ tx, handled tx → tx ∈ all)
    (header : RpcHeader) {tx : RpcTransaction} (htx : tx ∈ all) {unixMs : ℕ}
    (hreadings : ∀ o ∈ tx.inputs, (o, unixMs) ∈ readings) :
    Ledger chat watch all readings (fun t => handled t ∨ t = tx) top
      (emitFundsReceived chat watch header tx unixMs db).1 := by
  unfold emitFundsReceived
  split
  · next hnone =>
    refine ⟨h.sound, h.spends, fun t _ i a hpays => ?_⟩
    obtain ⟨output, -, -, hwatch⟩ := hpays
    rw [hnone] at hwatch
    cases hwatch
  · refine ⟨fun o a hget => ?_, fun k hk => ?_, fun t ht i a hpays => ?_⟩
    · rcases get_credits tx.txId (creditsOf chat watch tx.outputs) db.watchedOutpoints o with
        ⟨c, hc, rfl, hcredit⟩ | ⟨-, hsame⟩
      · obtain rfl := Option.some.inj (hget.symm.trans hcredit)
        exact ⟨tx, htx, rfl, pays_iff_credit.mpr ⟨c.2.2, hc⟩⟩
      · exact h.sound o a (hsame ▸ hget)
    · rcases mem_insertRows.mp hk with hk | hk
      · exact h.spends k hk
      · obtain ⟨o, ho, rfl⟩ := List.mem_map.mp hk
        exact hreadings o (List.mem_filter.mp ho).1
    · rcases get_credits tx.txId (creditsOf chat watch tx.outputs) db.watchedOutpoints ⟨t.txId, i⟩ with
        ⟨c, hc, ho, hcredit⟩ | ⟨hother, hsame⟩
      · obtain ⟨hid, rfl⟩ := Outpoint.mk.inj ho
        have htAll : t ∈ all := ht.elim (hall t) fun heq => heq ▸ htx
        obtain rfl := hids t htAll tx htx hid
        have hpays' : Pays chat watch t c.1 c.2.1 := pays_iff_credit.mpr ⟨c.2.2, hc⟩
        exact .inl (hpays.unique hpays' ▸ hcredit)
      · rcases ht with ht | rfl
        · rw [hsame]
          exact h.kept t ht i a hpays
        · obtain ⟨v, hv⟩ := pays_iff_credit.mp hpays
          exact absurd rfl (hother _ hv)

/-! ## What is told -/

/-- An event says what the transaction pays and whom it spends from. -/
structure Told (chat : Env) (watch : List AddressPayload) (all : List RpcTransaction)
    (tx : RpcTransaction) (event : FundsPushEvent) : Prop where
  txId : event.txId = tx.txId
  credited : ∀ c ∈ event.credited, ∃ (i : ℕ) (output : RpcTransactionOutput),
    tx.outputs[i]? = some output ∧ AddressPayload.tryFrom chat output.scriptPublicKey = some c.1 ∧
      c.1 ∈ watch ∧ output.value = c.2
  complete : ∀ i a, Pays chat watch tx i a → a ∈ event.credited.map Prod.fst
  senders : ∀ a, a ∈ event.senders ↔ Spends chat watch all tx a

theorem told_emit {db : WatchedDb} (h : Ledger chat watch all readings handled top db)
    (hintime : ∀ o t t', (o, t) ∈ readings → (o, t') ∈ readings → t' ≤ t + watchedSpendRetentionMs)
    (header : RpcHeader) {tx : RpcTransaction} {unixMs : ℕ} (htop : top ≤ unixMs)
    (hreadings : ∀ o ∈ tx.inputs, (o, unixMs) ∈ readings)
    (hparents : ∀ o ∈ tx.inputs, ∀ parent ∈ all, parent.txId = o.txId → handled parent)
    {event : FundsPushEvent}
    (hevent : (emitFundsReceived chat watch header tx unixMs db).2 = some event) :
    Told chat watch all tx event := by
  unfold emitFundsReceived at hevent
  split at hevent
  · cases hevent
  · dsimp only at hevent
    split at hevent
    · cases hevent
    · obtain rfl := Option.some.inj hevent
      refine ⟨rfl, fun c hc => ?_, fun i a hpays => ?_, fun a => ?_⟩
      · obtain ⟨⟨i, credit⟩, hcredit, rfl⟩ := List.mem_map.mp hc
        exact ⟨i, mem_creditsOf.mp hcredit⟩
      · obtain ⟨v, hv⟩ := pays_iff_credit.mp hpays
        exact List.mem_map_of_mem (List.mem_map_of_mem hv)
      · rw [mem_sendersOf]
        constructor
        · rintro ⟨o, ho, hget⟩
          obtain ⟨parent, hparent, hid, hpays⟩ := h.sound o a hget
          exact ⟨o, ho, parent, hparent, hid, hpays⟩
        · rintro ⟨o, ho, parent, hparent, hid, hpays⟩
          refine ⟨o, ho, ?_⟩
          rcases h.kept parent (hparents o ho parent hparent hid) o.index a hpays with hget | ⟨t, ht, hpast⟩
          · rwa [hid] at hget
          · rw [hid] at ht
            have hlate := hintime o t unixMs ht (hreadings o ho)
            omega

theorem emit_isSome (header : RpcHeader) {tx : RpcTransaction} {i : ℕ} {a : AddressPayload}
    (hpays : Pays chat watch tx i a) (unixMs : ℕ) (db : WatchedDb) :
    (emitFundsReceived chat watch header tx unixMs db).2.isSome = true := by
  obtain ⟨v, hv⟩ := pays_iff_credit.mp hpays
  obtain ⟨output, -, -, hwatch⟩ := hpays
  unfold emitFundsReceived
  rw [if_neg (List.ne_nil_of_mem hwatch)]
  dsimp only
  rw [if_neg (List.ne_nil_of_mem hv)]
  rfl

/-! ## Blocks -/

/-- What comes of the transactions of a block: the ledger of more that is handled, and the events of
those for which the queue has room. -/
theorem ledger_transactions (hids : ∀ tx ∈ all, ∀ tx' ∈ all, tx.txId = tx'.txId → tx = tx')
    (hintime : ∀ o t t', (o, t) ∈ readings → (o, t') ∈ readings → t' ≤ t + watchedSpendRetentionMs)
    (header : RpcHeader) {l : List FundsSighting} {db : WatchedDb} {events : List FundsPushEvent}
    (h : Ledger chat watch all readings handled top db) (hall : ∀ tx, handled tx → tx ∈ all)
    (htimes : (top :: l.map (·.unixMs)).Pairwise (· ≤ ·))
    (hl : ∀ s ∈ l, s.tx ∈ all ∧ ∀ o ∈ s.tx.inputs, (o, s.unixMs) ∈ readings)
    (hparents : ∀ pre s post, l = pre ++ s :: post → ∀ o ∈ s.tx.inputs, ∀ parent ∈ all,
      parent.txId = o.txId → handled parent ∨ parent ∈ pre.map (·.tx)) :
    (∀ bound, (∀ n ∈ top :: l.map (·.unixMs), n ≤ bound) →
      Ledger chat watch all readings (fun t => handled t ∨ t ∈ l.map (·.tx)) bound
        (l.foldl (handleTransaction chat watch header) (db, events)).1) ∧
      (∀ event ∈ (l.foldl (handleTransaction chat watch header) (db, events)).2,
        event ∈ events ∨ ∃ s ∈ l, Told chat watch all s.tx event) ∧
      (∀ event ∈ events, event ∈ (l.foldl (handleTransaction chat watch header) (db, events)).2) ∧
      ∀ s ∈ l, s.hasRoom = true → ∀ i a, Pays chat watch s.tx i a →
        ∃ event ∈ (l.foldl (handleTransaction chat watch header) (db, events)).2,
          event.txId = s.tx.txId ∧ a ∈ event.credited.map Prod.fst := by
  induction l generalizing handled top db events with
  | nil =>
    refine ⟨fun bound hbound => ?_, fun event hevent => .inl hevent, fun event hevent => hevent,
      by simp⟩
    refine ⟨h.sound, h.spends, fun tx htx => ?_⟩
    exact (h.mono (hbound top List.mem_cons_self)).kept tx (htx.resolve_right (by simp))
  | cons s l ih =>
    obtain ⟨htop, htimes'⟩ := List.pairwise_cons.mp htimes
    have hs := hl s List.mem_cons_self
    have hle : top ≤ s.unixMs := htop _ List.mem_cons_self
    have hbefore : ∀ o ∈ s.tx.inputs, ∀ parent ∈ all, parent.txId = o.txId → handled parent :=
      fun o ho parent hparent hid =>
        (hparents [] s l rfl o ho parent hparent hid).resolve_right (by simp)
    have hnext := (ledger_emit h hids hall header hs.1 hs.2).mono hle
    have hall' : ∀ tx, handled tx ∨ tx = s.tx → tx ∈ all := by
      rintro tx (htx | rfl)
      · exact hall tx htx
      · exact hs.1
    have hparents' : ∀ pre s' post, l = pre ++ s' :: post → ∀ o ∈ s'.tx.inputs, ∀ parent ∈ all,
        parent.txId = o.txId → (handled parent ∨ parent = s.tx) ∨ parent ∈ pre.map (·.tx) := by
      intro pre s' post hsplit o ho parent hparent hid
      rcases hparents (s :: pre) s' post (by rw [hsplit]; rfl) o ho parent hparent hid with
        hparent | hparent
      · exact .inl (.inl hparent)
      · rcases List.mem_cons.mp hparent with heq | hmem
        · exact .inl (.inr heq)
        · exact .inr hmem
    obtain ⟨hledger, htold, hkeeps, hcomplete⟩ := @ih _ _ _ (handleTransaction chat watch header
      (db, events) s).2 hnext hall' htimes' (fun s' hs' => hl s' (List.mem_cons_of_mem _ hs')) hparents'
    have hevents : ∀ event ∈ events, event ∈ (handleTransaction chat watch header (db, events) s).2 := by
      intro event hevent
      unfold handleTransaction
      dsimp only
      split
      · exact List.mem_append_left _ hevent
      · exact hevent
    refine ⟨fun bound hbound => ?_, fun event hevent => ?_, fun event hevent => ?_,
      fun s' hs' hroom i a hpays => ?_⟩
    · have hafter := hledger bound fun n hn => hbound n (List.mem_cons_of_mem _ hn)
      refine ⟨hafter.sound, hafter.spends, fun tx htx => hafter.kept tx ?_⟩
      rcases htx with htx | htx
      · exact .inl (.inl htx)
      · rcases List.mem_cons.mp htx with heq | hmem
        · exact .inl (.inr heq)
        · exact .inr hmem
    · rcases htold event hevent with hevent | ⟨s', hs', htold'⟩
      · unfold handleTransaction at hevent
        dsimp only at hevent
        split at hevent
        · rcases List.mem_append.mp hevent with hevent | hevent
          · exact .inl hevent
          · exact .inr ⟨s, List.mem_cons_self,
              told_emit h hintime header hle hs.2 hbefore (Option.mem_toList.mp hevent)⟩
        · exact .inl hevent
      · exact .inr ⟨s', List.mem_cons_of_mem _ hs', htold'⟩
    · exact hkeeps event (hevents event hevent)
    · rcases List.mem_cons.mp hs' with rfl | hs'
      · obtain ⟨event, hevent⟩ := Option.isSome_iff_exists.mp (emit_isSome header hpays s'.unixMs db)
        have htold' := told_emit h hintime header hle hs.2 hbefore hevent
        refine ⟨event, hkeeps event ?_, htold'.txId, htold'.complete i a hpays⟩
        unfold handleTransaction
        dsimp only
        rw [if_pos hroom, hevent]
        exact List.mem_append_right _ (List.mem_singleton_self event)
      · exact hcomplete s' hs' hroom i a hpays

end

/-! ## Runs -/

def blocksOf (events : List FundsEvent) : List BlockRun :=
  events.filterMap fun
    | .block b => some b
    | _ => none

def txsOf (b : BlockRun) : List RpcTransaction := b.sightings.map (·.tx)

/-- Every transaction of a block that is handled, be it committed or not. -/
def sighted (events : List FundsEvent) : List RpcTransaction := (blocksOf events).flatMap txsOf

def wallReadings (events : List FundsEvent) : List ℕ :=
  (blocksOf events).flatMap fun b => b.unixMs :: b.sightings.map (·.unixMs)

/-- When the spends of outpoints were sighted. -/
def spendReadings (events : List FundsEvent) : List (Outpoint × ℕ) :=
  (blocksOf events).flatMap fun b => b.sightings.flatMap fun s => s.tx.inputs.map fun o => (o, s.unixMs)

def instants (events : List FundsEvent) : List ℕ :=
  events.flatMap fun
    | .credit markMs nowMs => [markMs, nowMs]
    | _ => []

/-- The transactions of the committed blocks. -/
def Committed (events : List FundsEvent) (tx : RpcTransaction) : Prop :=
  ∃ b ∈ blocksOf events, b.committed = true ∧ tx ∈ txsOf b

/-- A run in which hashes and ids tell blocks and transactions apart, clocks run forward, and every
transaction is handled after the parents that are sighted at all. -/
structure Orderly (events : List FundsEvent) : Prop where
  hashes : ∀ b ∈ blocksOf events, ∀ b' ∈ blocksOf events, b.header.hash = b'.header.hash →
    txsOf b = txsOf b'
  ids : ∀ tx ∈ sighted events, ∀ tx' ∈ sighted events, tx.txId = tx'.txId → tx = tx'
  wall : (wallReadings events).Pairwise (· ≤ ·)
  instants : (instants events).Pairwise (· ≤ ·)
  parents : ∀ before b after, events = before ++ .block b :: after →
    ∀ pre s post, b.sightings = pre ++ s :: post → ∀ o ∈ s.tx.inputs, ∀ parent ∈ sighted events,
      parent.txId = o.txId → Committed before parent ∨ parent ∈ pre.map (·.tx)

/-- All sightings of the spends of an outpoint fall in its retention. -/
def InTime (events : List FundsEvent) : Prop :=
  ∀ o t t', (o, t) ∈ spendReadings events → (o, t') ∈ spendReadings events →
    t' ≤ t + watchedSpendRetentionMs

section
variable {chat : Env} {watch : List AddressPayload} {events before after : List FundsEvent}

theorem blocksOf_append (before after : List FundsEvent) :
    blocksOf (before ++ after) = blocksOf before ++ blocksOf after := List.filterMap_append

theorem sighted_append (before after : List FundsEvent) :
    sighted (before ++ after) = sighted before ++ sighted after := by
  rw [sighted, blocksOf_append, List.flatMap_append, sighted, sighted]

theorem sighted_of_committed {tx : RpcTransaction} (h : Committed before tx) :
    tx ∈ sighted (before ++ after) := by
  obtain ⟨b, hb, -, htx⟩ := h
  rw [sighted_append]
  exact List.mem_append_left _ (List.mem_flatMap.mpr ⟨b, hb, htx⟩)

/-- The block processor after a part of a run. -/
structure Watching (chat : Env) (watch : List AddressPayload) (events before : List FundsEvent)
    (p : BlockProcessor) : Prop where
  headers : ∀ hash, (get p.db.headers hash).isSome = true ↔
    ∃ b ∈ blocksOf before, b.committed = true ∧ b.header.hash = hash
  ledger : ∀ top, (∀ n ∈ wallReadings before, n ≤ top) →
    Ledger chat watch (sighted events) (spendReadings events) (Committed before) top p.db

theorem watching_new (chat : Env) (watch : List AddressPayload) (events : List FundsEvent) :
    Watching chat watch events [] FundsService.new.processor where
  headers hash := by simp [FundsService.new, ChatRows.get, blocksOf]
  ledger top _ := ⟨by simp [FundsService.new, ChatRows.get], by simp [FundsService.new],
    by
      rintro tx ⟨b, hb, -⟩
      exact absurd hb (by simp [blocksOf])⟩

/-- Only blocks count. -/
theorem Watching.of_blocks {p : BlockProcessor} (h : Watching chat watch events before p)
    {before' : List FundsEvent} (hblocks : blocksOf before' = blocksOf before) :
    Watching chat watch events before' p where
  headers := by
    rw [hblocks]
    exact h.headers
  ledger top htop := by
    have hledger := h.ledger top (by rwa [wallReadings, hblocks] at htop)
    refine ⟨hledger.sound, hledger.spends, ?_⟩
    simp only [Committed, hblocks]
    exact hledger.kept

theorem block_readings {b : BlockRun} (horderly : Orderly events)
    (hsplit : events = before ++ .block b :: after) :
    (∀ n ∈ wallReadings before, n ≤ b.unixMs) ∧ (b.unixMs :: b.sightings.map (·.unixMs)).Pairwise (· ≤ ·) ∧
      ∀ s ∈ b.sightings, s.tx ∈ sighted events ∧ ∀ o ∈ s.tx.inputs, (o, s.unixMs) ∈ spendReadings events := by
  have hblocks : blocksOf events = blocksOf before ++ b :: blocksOf after := by
    rw [hsplit, blocksOf_append]
    rfl
  have hwall : (wallReadings before ++ ((b.unixMs :: b.sightings.map (·.unixMs)) ++
      wallReadings after)).Pairwise (· ≤ ·) := by
    have hall := horderly.wall
    rwa [wallReadings, hblocks, List.flatMap_append, List.flatMap_cons] at hall
  obtain ⟨-, hlater, hacross⟩ := List.pairwise_append.mp hwall
  refine ⟨fun n hn => hacross n hn _ (List.mem_append_left _ List.mem_cons_self),
    (List.pairwise_append.mp hlater).1, fun s hs => ⟨?_, fun o ho => ?_⟩⟩
  · rw [sighted, hblocks]
    exact List.mem_flatMap.mpr ⟨b, by simp, List.mem_map_of_mem hs⟩
  · rw [spendReadings, hblocks]
    exact List.mem_flatMap.mpr ⟨b, by simp, List.mem_flatMap.mpr ⟨s, hs, List.mem_map_of_mem ho⟩⟩

theorem headers_put {p : Partition Hash (ℕ × ℕ)} {b : BlockRun} {before : List FundsEvent}
    (h : ∀ hash, (get p hash).isSome = true ↔
      ∃ b ∈ blocksOf before, b.committed = true ∧ b.header.hash = hash)
    (hcommitted : b.committed = true) (value : ℕ × ℕ) (hash : Hash) :
    (get (put p b.header.hash value) hash).isSome = true ↔
      ∃ b' ∈ blocksOf (before ++ [.block b]), b'.committed = true ∧ b'.header.hash = hash := by
  have hblocks : blocksOf (before ++ [.block b]) = blocksOf before ++ [b] := blocksOf_append _ _
  rw [get_put, hblocks]
  split
  · next heq => exact iff_of_true rfl ⟨b, by simp, hcommitted, heq.symm⟩
  · next hne =>
    rw [h hash]
    constructor
    · rintro ⟨b', hb', hb'committed, rfl⟩
      exact ⟨b', List.mem_append_left _ hb', hb'committed, rfl⟩
    · rintro ⟨b', hb', hb'committed, rfl⟩
      rcases List.mem_append.mp hb' with hb' | hb'
      · exact ⟨b', hb', hb'committed, rfl⟩
      · exact absurd (by rw [List.mem_singleton.mp hb']) hne

theorem transactions_headers (chat : Env) (watch : List AddressPayload) (header : RpcHeader)
    (l : List FundsSighting) (state : WatchedDb × List FundsPushEvent) :
    (l.foldl (handleTransaction chat watch header) state).1.headers = state.1.headers := by
  induction l generalizing state with
  | nil => rfl
  | cons s l ih =>
    rw [List.foldl_cons, ih]
    unfold handleTransaction emitFundsReceived
    dsimp only
    split <;> rfl

theorem prune_headers (p : BlockProcessor) (instantMs unixMs : ℕ) :
    (pruneWatchedSpends p instantMs unixMs).db.headers = p.db.headers := by
  unfold pruneWatchedSpends
  split <;> rfl

/-- A block leaves the processor as it should be, sends only events that tell the truth and, where its
header is new, one of each transaction for which there is room. -/
theorem watching_block (horderly : Orderly events) (hintime : InTime events) {b : BlockRun}
    (hsplit : events = before ++ .block b :: after) {p : BlockProcessor}
    (h : Watching chat watch events before p) :
    Watching chat watch events (before ++ [.block b]) (handleBlock chat watch p b).1 ∧
      (∀ event ∈ (handleBlock chat watch p b).2, ∃ tx ∈ sighted events,
        Told chat watch (sighted events) tx event) ∧
      ((∀ b' ∈ blocksOf before, b'.committed = true → b'.header.hash ≠ b.header.hash) →
        ∀ s ∈ b.sightings, s.hasRoom = true → ∀ i a, Pays chat watch s.tx i a →
          ∃ event ∈ (handleBlock chat watch p b).2, event.txId = s.tx.txId ∧
            a ∈ event.credited.map Prod.fst) := by
  obtain ⟨hbefore, htimes, hsightings⟩ := block_readings horderly hsplit
  have hblocks : blocksOf (before ++ [.block b]) = blocksOf before ++ [b] := blocksOf_append _ _
  have hwall : wallReadings (before ++ [.block b]) =
      wallReadings before ++ (b.unixMs :: b.sightings.map (·.unixMs)) := by
    rw [wallReadings, hblocks, List.flatMap_append, List.flatMap_singleton, wallReadings]
  have hmore (tx : RpcTransaction) : Committed (before ++ [.block b]) tx ↔
      Committed before tx ∨ (b.committed = true ∧ tx ∈ txsOf b) := by
    simp only [Committed, hblocks, List.mem_append, List.mem_singleton, or_and_right, exists_or,
      exists_eq_left]
  -- where the write is rolled back, all that counts is as before
  have hrolled (hnot : b.committed = false) : Watching chat watch events (before ++ [.block b]) p := by
    refine ⟨fun hash => ?_, fun top htop => ?_⟩
    · rw [h.headers, hblocks]
      simp [hnot, or_and_right, exists_or]
    · have hledger := h.ledger top fun n hn => htop n (by rw [hwall]; exact List.mem_append_left _ hn)
      refine ⟨hledger.sound, hledger.spends, fun tx htx => hledger.kept tx ?_⟩
      exact ((hmore tx).mp htx).resolve_right (by simp [hnot])
  unfold handleBlock
  dsimp only
  split
  · next hknown =>
    obtain ⟨b', hb', hb'committed, hhash⟩ := (h.headers _).mp hknown
    refine ⟨?_, by simp, fun hnew => absurd hhash (hnew b' hb' hb'committed)⟩
    cases hcommitted : b.committed with
    | false => exact hrolled hcommitted
    | true =>
      have hsame : txsOf b = txsOf b' := by
        refine horderly.hashes b ?_ b' ?_ hhash.symm
        · rw [hsplit, blocksOf_append]
          exact List.mem_append_right _ List.mem_cons_self
        · rw [hsplit, blocksOf_append]
          exact List.mem_append_left _ hb'
      refine ⟨headers_put h.headers hcommitted _, fun top htop => ?_⟩
      have hledger := h.ledger top fun n hn => htop n (by rw [hwall]; exact List.mem_append_left _ hn)
      refine ⟨hledger.sound, hledger.spends, fun tx htx => hledger.kept tx ?_⟩
      rcases (hmore tx).mp htx with htx | ⟨-, htx⟩
      · exact htx
      · exact ⟨b', hb', hb'committed, hsame ▸ htx⟩
  · next hnew =>
    have hput : Ledger chat watch (sighted events) (spendReadings events) (Committed before) b.unixMs
        { p.db with headers := put p.db.headers b.header.hash (b.header.blueWork, b.header.daaScore) } :=
      { h.ledger b.unixMs hbefore with }
    have hpruned := ledger_prune (p := { p with db := _ }) hput b.instantMs le_rfl
    have hall : ∀ tx, Committed before tx → tx ∈ sighted events := fun tx htx => by
      rw [hsplit]
      exact sighted_of_committed htx
    obtain ⟨hledger, htold, -, hcomplete⟩ := @ledger_transactions chat watch _ _ _ _
      horderly.ids hintime b.header b.sightings _ [] hpruned hall htimes hsightings (horderly.parents before b after hsplit)
    refine ⟨?_, fun event hevent => ?_, fun _ => hcomplete⟩
    · cases hcommitted : b.committed with
      | false => exact { hrolled hcommitted with }
      | true =>
        refine ⟨fun hash => ?_, fun top htop => ?_⟩
        · rw [if_pos rfl, transactions_headers, prune_headers]
          exact headers_put h.headers hcommitted _ hash
        · have hafter := hledger top fun n hn => htop n (by rw [hwall]; exact List.mem_append_right _ hn)
          rw [if_pos rfl]
          refine ⟨hafter.sound, hafter.spends, fun tx htx => hafter.kept tx ?_⟩
          exact ((hmore tx).mp htx).imp_right And.right
    · obtain ⟨s, hs, htold'⟩ := (htold event hevent).resolve_left (by simp)
      exact ⟨s.tx, (hsightings s hs).1, htold'⟩

end

end KaChatIndexer.FundsOutpoints
