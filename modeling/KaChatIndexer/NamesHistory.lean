import KaChatIndexer.NamesPartition

/-!
# History determines the registry

Folding the emitted events gives a ledger of keys with owner and price. Along a documented run it
agrees with the tracked names, and a change of owner is reported with the owner before it.
-/
namespace KaChatIndexer.NamesHistory
open ByteStrings NamesCodec NamesState NamesEnv NamesTransition NamesTemplates NamesRegistry
open NamesApply NamesStep NamesReorg NamesShapes NamesCoreStep NamesPartition FinmapPatch

/-- What the history says of one key. -/
structure Row where
  owner : Bytes32
  price : Int64
  periodStart : Int64
  expiresAt : Int64

abbrev Ledger := Bytes32 → Option Row

section
variable (dates : Event → Int64 × Int64) (periodMs : Int64)

/-- One event on the ledger. The dates of a minted name are not in its event: they are given. -/
def record (ledger : Ledger) (e : Event) : Ledger :=
  match e.op with
  | .register | .import => match e.toKey with
    | some owner => Function.update ledger e.key (some ⟨owner, 0, (dates e).1, (dates e).2⟩)
    | none => ledger
  | .transfer | .sale | .offerAccepted => Function.update ledger e.key ((ledger e.key).map fun row =>
      { row with owner := e.toKey.getD row.owner, price := 0 })
  | .list | .delist => Function.update ledger e.key ((ledger e.key).map fun row =>
      { row with price := e.price.getD row.price })
  | .renew => Function.update ledger e.key ((ledger e.key).map fun row =>
      { row with
        periodStart := row.expiresAt, expiresAt := row.expiresAt + e.years.getD 0 * periodMs })
  | .extend => Function.update ledger e.key ((ledger e.key).map fun row =>
      { row with expiresAt := row.expiresAt + e.years.getD 0 * periodMs })
  | .release | .reclaim => Function.update ledger e.key none
  | .offer | .offerDecline | .offerWithdraw | .offerRefund | .prices | .priceAuthority => ledger

def replay (ledger : Ledger) (events : List Event) : Ledger := events.foldl (record dates periodMs) ledger

/-- The ledger has the keys of the tracked names, with their owners and prices. -/
structure Agrees (ledger : Ledger) (m : UtxoMap) : Prop where
  row : ∀ op n, m.lookup op = some (.name n) →
    ∃ row, ledger n.key = some row ∧ row.owner = n.owner ∧ row.price = n.price
  live : ∀ k row, ledger k = some row → ∃ op n, m.lookup op = some (.name n) ∧ n.key = k

/-- Transfers, sales and accepted offers. -/
def ChangesOwner (op : Op) : Prop := op = .transfer ∨ op = .sale ∨ op = .offerAccepted

/-- A change of owner carries the owner before and the owner after it. -/
def OwnerTold (ledger : Ledger) (e : Event) : Prop :=
  ChangesOwner e.op → ∃ row row', ledger e.key = some row ∧
    record dates periodMs ledger e e.key = some row' ∧
    (row'.owner ≠ row.owner → e.fromKey = some row.owner ∧ e.toKey = some row'.owner)

def AllTold : Ledger → List Event → Prop
  | _, [] => True
  | ledger, e :: es => OwnerTold dates periodMs ledger e ∧ AllTold (record dates periodMs ledger e) es

variable {dates periodMs} {ledger : Ledger} {m m' : UtxoMap}

theorem record_other {e : Event} (h : onName e.op = false) : record dates periodMs ledger e = ledger := by
  unfold record
  split <;> simp_all [onName]

theorem replay_nameEvents (es : List Event) :
    replay dates periodMs ledger (nameEvents es) = replay dates periodMs ledger es := by
  induction es generalizing ledger with
  | nil => rfl
  | cons e es ih =>
    cases hon : onName e.op with
    | true =>
      have hcons : nameEvents (e :: es) = e :: nameEvents es := by simp [nameEvents, hon]
      rw [hcons]
      exact ih
    | false =>
      have hcons : nameEvents (e :: es) = nameEvents es := by simp [nameEvents, hon]
      rw [hcons, ih]
      simp only [replay, List.foldl_cons, record_other hon]

theorem allTold_append {es fs : List Event} : AllTold dates periodMs ledger (es ++ fs) ↔
    AllTold dates periodMs ledger es ∧ AllTold dates periodMs (replay dates periodMs ledger es) fs := by
  induction es generalizing ledger with
  | nil => simp [AllTold, replay]
  | cons e es ih => rw [List.cons_append, AllTold, ih, AllTold, and_assoc]; rfl

theorem allTold_nameEvents {es : List Event} (h : AllTold dates periodMs ledger (nameEvents es)) :
    AllTold dates periodMs ledger es := by
  induction es generalizing ledger with
  | nil => trivial
  | cons e es ih =>
    cases hon : onName e.op with
    | true =>
      have hcons : nameEvents (e :: es) = e :: nameEvents es := by simp [nameEvents, hon]
      rw [hcons] at h
      exact ⟨h.1, ih h.2⟩
    | false =>
      have hcons : nameEvents (e :: es) = nameEvents es := by simp [nameEvents, hon]
      rw [hcons] at h
      refine ⟨?_, by rw [record_other hon]; exact ih h⟩
      rintro (hop | hop | hop) <;> simp [hop, onName] at hon

variable (dates periodMs) in
/-- The events of a continuation: the row of the key follows the name. -/
theorem record_continues {old ns : NameState} {e : Event} (hevent : Continues old ns e) {row : Row}
    (hrow : ledger old.key = some row) (howner : row.owner = old.owner) (hprice : row.price = old.price) :
    (∃ row', record dates periodMs ledger e = Function.update ledger old.key (some row') ∧
      row'.owner = ns.owner ∧ row'.price = ns.price) ∧ OwnerTold dates periodMs ledger e := by
  obtain ⟨-, hkey, hop⟩ := hevent
  rw [← hkey] at hrow
  cases hcase : e.op <;> simp only [hcase] at hop
  case transfer | sale | offerAccepted =>
    obtain ⟨hp, ⟨hsame, hto⟩ | ⟨hne, hto, hfrom⟩⟩ := hop
    · refine ⟨⟨{ row with price := 0 }, ?_, by simp [howner, hsame], hp.symm⟩, fun _ => ?_⟩
      · simp [record, hcase, hrow, hto, ← hkey]
      · refine ⟨row, { row with price := 0 }, hrow, ?_, fun h => absurd rfl h⟩
        simp [record, hcase, hrow, hto]
    · refine ⟨⟨{ row with owner := ns.owner, price := 0 }, ?_, rfl, hp.symm⟩, fun _ => ?_⟩
      · simp [record, hcase, hrow, hto, ← hkey]
      · refine ⟨row, { row with owner := ns.owner, price := 0 }, hrow, ?_, fun _ => ?_⟩
        · simp [record, hcase, hrow, hto]
        · rw [howner]
          exact ⟨hfrom, hto⟩
  case list | delist =>
    refine ⟨⟨{ row with price := ns.price }, ?_, by simp [howner, hop.1], rfl⟩, ?_⟩
    · simp [record, hcase, hrow, hop.2, ← hkey]
    · rintro (h | h | h) <;> simp [hcase] at h
  case renew | extend =>
    refine ⟨⟨_, by simp only [record, hcase, hrow, Option.map_some, ← hkey]; rfl, ?_, ?_⟩, ?_⟩
    · simp [howner, hop.1]
    · simp [hprice, hop.2]
    · rintro (h | h | h) <;> simp [hcase] at h

variable (dates periodMs) in
/-- Every core step keeps the ledger in agreement, and tells its change of owner. -/
theorem agrees_step {lo hi : Bytes32} {chain : List (Outpoint × GapState)}
    {removed : List Outpoint} {added : List (Outpoint × Tracked)} {es : List Event}
    (h : Agrees ledger m) (hpart : Partition lo hi m chain) (hstep : CoreStep m removed added es)
    (hpatch : CorePatch m m' removed added) :
    Agrees (replay dates periodMs ledger es) m' ∧ AllTold dates periodMs ledger es := by
  cases hstep with
  | @split op left right minted gap n e hgap hlo hhi hprice hop hkey hto =>
    have hfree {op' : Outpoint} {n' : NameState} (hn' : m.lookup op' = some (.name n')) :
        n'.key ≠ n.key := hpart.key_free ((hpart.gaps op gap).mp hgap) hlo hhi hn'
    have hrecord : record dates periodMs ledger e =
        Function.update ledger n.key (some ⟨n.owner, 0, (dates e).1, (dates e).2⟩) := by
      unfold record
      rcases hop with hop | hop <;> simp [hop, hto, hkey]
    have htold : OwnerTold dates periodMs ledger e := by
      rintro (h | h | h) <;> rcases hop with hop | hop <;> rw [hop] at h <;> cases h
    refine ⟨⟨fun op' n' hn' => ?_, fun k row hrow => ?_⟩, htold, trivial⟩
    · simp only [replay, List.foldl_cons, List.foldl_nil, hrecord]
      rw [hpatch.lookup op' (.name n') rfl] at hn'
      simp only [List.mem_cons, Prod.mk.injEq, reduceCtorEq, and_false, false_or,
        Tracked.name.injEq, List.not_mem_nil, or_false] at hn'
      rcases hn' with ⟨-, rfl⟩ | ⟨hn', -⟩
      · exact ⟨_, Function.update_self .., rfl, hprice.symm⟩
      · obtain ⟨row, hrow, hsame⟩ := h.row op' n' hn'
        exact ⟨row, by rw [Function.update_of_ne (hfree hn'), hrow], hsame⟩
    · simp only [replay, List.foldl_cons, List.foldl_nil, hrecord] at hrow
      by_cases hk : k = n.key
      · exact ⟨minted, n, (hpatch.lookup minted (.name n) rfl).mpr (.inl (by simp)), hk.symm⟩
      · rw [Function.update_of_ne hk] at hrow
        obtain ⟨op', n', hn', hkey'⟩ := h.live k row hrow
        refine ⟨op', n', (hpatch.lookup op' (.name n') rfl).mpr (.inr ⟨hn', fun heq => ?_⟩), hkey'⟩
        rw [List.mem_singleton.mp heq, hgap] at hn'
        cases hn'
  | @exit op1 op2 op3 merged loGap hiGap n e hlo hn hhi hlokey hkeyhi hop hkey =>
    have hrecord : record dates periodMs ledger e = Function.update ledger n.key none := by
      unfold record
      rcases hop with hop | hop <;> simp [hop, hkey]
    have htold : OwnerTold dates periodMs ledger e := by
      rintro (h | h | h) <;> rcases hop with hop | hop <;> rw [hop] at h <;> cases h
    refine ⟨⟨fun op' n' hn' => ?_, fun k row hrow => ?_⟩, htold, trivial⟩
    · simp only [replay, List.foldl_cons, List.foldl_nil, hrecord]
      rw [hpatch.lookup op' (.name n') rfl] at hn'
      simp only [List.mem_cons, Prod.mk.injEq, reduceCtorEq, and_false, List.not_mem_nil,
        or_false, false_or, not_or] at hn'
      obtain ⟨row, hrow, hsame⟩ := h.row op' n' hn'.1
      refine ⟨row, ?_, hsame⟩
      rw [Function.update_of_ne fun heq => hn'.2.2.1 (hpart.unique op' op2 n' n hn'.1 hn heq), hrow]
    · simp only [replay, List.foldl_cons, List.foldl_nil, hrecord] at hrow
      have hk : k ≠ n.key := by
        rintro rfl
        rw [Function.update_self] at hrow
        cases hrow
      rw [Function.update_of_ne hk] at hrow
      obtain ⟨op', n', hn', hkey'⟩ := h.live k row hrow
      refine ⟨op', n', (hpatch.lookup op' (.name n') rfl).mpr (.inr ⟨hn', fun hmem => ?_⟩), hkey'⟩
      simp only [List.mem_cons, List.not_mem_nil, or_false] at hmem
      rcases hmem with rfl | rfl | rfl
      · rw [hlo] at hn'; cases hn'
      · rw [hn] at hn'
        cases hn'
        exact hk hkey'.symm
      · rw [hhi] at hn'; cases hn'
  | @continued op next old ns e hold hevent =>
    obtain ⟨row, hrow, howner, hprice⟩ := h.row op old hold
    obtain ⟨⟨row', hrecord, howner', hprice'⟩, htold⟩ :=
      record_continues dates periodMs hevent hrow howner hprice
    have hkey := hevent.1
    refine ⟨⟨fun op' n' hn' => ?_, fun k row hrow => ?_⟩, htold, trivial⟩
    · simp only [replay, List.foldl_cons, List.foldl_nil, hrecord]
      rw [hpatch.lookup op' (.name n') rfl] at hn'
      simp only [List.mem_cons, Prod.mk.injEq, Tracked.name.injEq, List.not_mem_nil, or_false] at hn'
      rcases hn' with ⟨-, rfl⟩ | ⟨hn', hne⟩
      · exact ⟨row', by rw [hkey, Function.update_self], howner', hprice'⟩
      · obtain ⟨row2, hrow2, hsame⟩ := h.row op' n' hn'
        refine ⟨row2, ?_, hsame⟩
        rw [Function.update_of_ne fun heq => hne (hpart.unique op' op n' old hn' hold heq), hrow2]
    · simp only [replay, List.foldl_cons, List.foldl_nil, hrecord] at hrow
      by_cases hk : k = old.key
      · exact ⟨next, ns, (hpatch.lookup next (.name ns) rfl).mpr (.inl (by simp)), by rw [hkey, hk]⟩
      · rw [Function.update_of_ne hk] at hrow
        obtain ⟨op', n', hn', hkey'⟩ := h.live k row hrow
        refine ⟨op', n', (hpatch.lookup op' (.name n') rfl).mpr (.inr ⟨hn', fun heq => ?_⟩), hkey'⟩
        rw [List.mem_singleton.mp heq, hold] at hn'
        cases hn'
        exact hk hkey'.symm
  | aside =>
    have hsame (op : Outpoint) (n : NameState) :
        m'.lookup op = some (.name n) ↔ m.lookup op = some (.name n) := by
      simpa using hpatch.lookup op (.name n) rfl
    refine ⟨⟨fun op n hn => h.row op n ((hsame op n).mp hn), fun k row hrow => ?_⟩, trivial⟩
    obtain ⟨op, n, hn, hkey⟩ := h.live k row hrow
    exact ⟨op, n, (hsame op n).mpr hn, hkey⟩

end

section
variable {env : Env} {t : Templates} {dates : Event → Int64 × Int64}

variable (dates) in
theorem agrees_run {lo hi : Bytes32} {r : Registry} {txs : List Tx} (hrun : ShapedRun env t r txs)
    {chain : List (Outpoint × GapState)} (hpart : Partition lo hi r.utxos chain) {ledger : Ledger}
    (h : Agrees ledger r.utxos) :
    Agrees (replay dates t.periodMs ledger (runEvents env t r txs)) (applyAll env t r txs).utxos ∧
      AllTold dates t.periodMs ledger (runEvents env t r txs) := by
  induction txs generalizing r chain ledger with
  | nil => exact ⟨h, trivial⟩
  | cons tx txs ih =>
    obtain ⟨hfresh, hshape, hnext⟩ := hrun
    obtain ⟨removed, added, hstep, hpatch⟩ := steps_of_shape hfresh hpart.unique hshape
    rw [← applyTx_utxos] at hpatch
    obtain ⟨chain', hpart'⟩ := partition_step hpart hstep hpatch
    obtain ⟨hagrees, htold⟩ := agrees_step dates t.periodMs h hpart hstep hpatch
    rw [replay_nameEvents] at hagrees
    obtain ⟨hlater, htoldLater⟩ := ih hnext hpart' hagrees
    refine ⟨?_, allTold_append.mpr ⟨allTold_nameEvents htold, htoldLater⟩⟩
    have hreplay : replay dates t.periodMs ledger (runEvents env t r (tx :: txs)) =
        replay dates t.periodMs (replay dates t.periodMs ledger (applyTx env t tx r).2)
          (runEvents env t (applyTx env t tx r).1 txs) := List.foldl_append ..
    rw [hreplay]
    exact hlater

theorem shapedRun_start {r : Registry} {txs pre : List Tx} (hrun : ShapedRun env t r txs)
    (hpre : pre <+: txs) : ShapedRun env t r pre := by
  induction txs generalizing r pre with
  | nil => rw [List.prefix_nil.mp hpre]; trivial
  | cons tx txs ih =>
    cases pre with
    | nil => trivial
    | cons tx' pre =>
      obtain ⟨rfl, htail⟩ := List.cons_prefix_cons.mp hpre
      exact ⟨hrun.1, hrun.2.1, ih hrun.2.2 htail⟩

theorem allTold_split {periodMs : Int64} {ledger : Ledger} {front back : List Event} {e : Event}
    (h : AllTold dates periodMs ledger (front ++ e :: back)) :
    OwnerTold dates periodMs (replay dates periodMs ledger front) e :=
  (allTold_append.mp h).2.1

/-- After every prefix of a documented run from one genesis gap, the folded history has exactly the
keys of the tracked names, with their owners and prices; and each change of owner on the way
carries the owner before it. -/
theorem history_determines_registry (env : Env) (t : Templates) (dates : Event → Int64 × Int64)
    {lo hi : Bytes32} (hlt : lo < hi) (genesis : Outpoint) (shards : List (Outpoint × PriceState))
    (hshards : ∀ x ∈ shards, x.1 ≠ genesis) (txs : List Tx)
    (hrun : ShapedRun env t (seedAll genesis ⟨lo, hi⟩ shards) txs) (pre : List Tx)
    (hpre : pre <+: txs) :
    Agrees (replay dates t.periodMs (fun _ => none)
        (runEvents env t (seedAll genesis ⟨lo, hi⟩ shards) pre))
      (applyAll env t (seedAll genesis ⟨lo, hi⟩ shards) pre).utxos ∧
    ∀ front e back, runEvents env t (seedAll genesis ⟨lo, hi⟩ shards) pre = front ++ e :: back →
      OwnerTold dates t.periodMs (replay dates t.periodMs (fun _ => none) front) e := by
  have hstart : Agrees (fun _ => none) (seedAll genesis ⟨lo, hi⟩ shards).utxos := by
    refine ⟨fun op n hn => ?_, fun k row hrow => by cases hrow⟩
    have := ((seedAll_core hshards op (.name n) rfl).mp hn).2
    cases this
  obtain ⟨hagrees, htold⟩ := agrees_run dates (shapedRun_start hrun hpre)
    (partition_seeds hlt hshards) hstart
  refine ⟨hagrees, fun front e back hsplit => ?_⟩
  rw [hsplit] at htold
  exact allTold_split htold

/-- The history of the registration of `alice`. -/
theorem alice_history_determines :
    Agrees (replay (fun _ => (NamesSample.now, NamesSample.now)) NamesSample.templates.periodMs
        (fun _ => none) (runEvents NamesSample.env NamesSample.templates
          (seedAll NamesSample.genesis ⟨zero32, NamesSample.fill 0xff⟩ []) [NamesSample.registerAlice]))
      (applyAll NamesSample.env NamesSample.templates
        (seedAll NamesSample.genesis ⟨zero32, NamesSample.fill 0xff⟩ [])
        [NamesSample.registerAlice]).utxos :=
  (history_determines_registry NamesSample.env NamesSample.templates _ (by decide +kernel)
    NamesSample.genesis [] (by simp) [NamesSample.registerAlice] registerAlice_shaped
    [NamesSample.registerAlice] List.prefix_rfl).1

end

end KaChatIndexer.NamesHistory
