import KaChatIndexer.FundsOutpoints
import KaChatIndexer.PushSigned
import KaChatIndexer.PushStored

/-!
# Decisions on received-KAS pushes

One round of the dispatcher either knows its key or decides whom a push is sent to. What it has decided
so far accounts for the cache of keys and for the windows of the rate limit.
-/
namespace KaChatIndexer.FundsDispatch
open ByteStrings KaText PushFields PushAuth PushRegistry PushSigned PushStored ChatRows ChatSlots
  FundsPushes FundsOutpoints

/-! ## Keys -/

section
variable {chat : Env} {encode : ℕ → Bytes → Text}

/-- A standard address fills all 33 bytes, or ends in a zero byte. -/
theorem standard_cases {script : ScriptPublicKey} {a : AddressPayload}
    (h : AddressPayload.tryFrom chat script = some a) :
    ((a.inverseVersion = 255 ∨ a.inverseVersion = 247) ∧
        a.payload.toList = a.payload.toList.take 32 ++ [0]) ∨ a.inverseVersion = 254 := by
  have hpadded (b : Bytes) : (payload33 (b.take 32)).toList =
      (payload33 (b.take 32)).toList.take 32 ++ [0] := by
    have hlen : (b.take 32).length ≤ 32 := by simp
    have hlast : (b.take 32 ++ List.replicate 33 0)[32]? = some (0 : UInt8) := by
      rw [List.getElem?_append_right hlen, List.getElem?_replicate, if_pos (by omega)]
    show (b.take 32 ++ List.replicate 33 0).take 33 =
      ((b.take 32 ++ List.replicate 33 0).take 33).take 32 ++ [0]
    rw [List.take_take, List.take_add_one, hlast]
    rfl
  unfold AddressPayload.tryFrom at h
  dsimp only at h
  split at h
  · cases h
  · split at h
    · cases h
    · obtain rfl := Option.some.inj h
      exact .inl ⟨.inl rfl, hpadded _⟩
    · obtain rfl := Option.some.inj h
      exact .inr rfl
    · obtain rfl := Option.some.inj h
      exact .inl ⟨.inr rfl, hpadded _⟩

/-- A standard address has a text of its own. -/
theorem toRpcAddress_some {script : ScriptPublicKey} {a : AddressPayload}
    (h : AddressPayload.tryFrom chat script = some a) : ∃ address, toRpcAddress encode a = some address := by
  obtain ⟨version, payload⟩ := a
  rcases standard_cases h with ⟨hversion | hversion, -⟩ | hversion
  all_goals
    obtain rfl : version = _ := hversion
    exact ⟨_, rfl⟩

theorem toRpcAddress_inj (hencode : ∀ v b v' b', encode v b = encode v' b' → v = v' ∧ b = b')
    {script script' : ScriptPublicKey} {a a' : AddressPayload}
    (h : AddressPayload.tryFrom chat script = some a) (h' : AddressPayload.tryFrom chat script' = some a')
    (heq : toRpcAddress encode a = toRpcAddress encode a') : a = a' := by
  have hcases := standard_cases h
  have hcases' := standard_cases h'
  obtain ⟨version, payload⟩ := a
  obtain ⟨version', payload'⟩ := a'
  dsimp only at hcases hcases'
  have hlist (hlists : payload.toList = payload'.toList) (hversion : version = version') :
      (⟨version, payload⟩ : AddressPayload) = ⟨version', payload'⟩ := by
    rw [hversion, List.Vector.toList_injective hlists]
  rcases hcases with ⟨rfl | rfl, hpad⟩ | rfl <;> rcases hcases' with ⟨rfl | rfl, hpad'⟩ | rfl <;>
    obtain ⟨hv, hb⟩ := hencode _ _ _ _ (Option.some.inj heq)
  · exact hlist (by rw [hpad, hpad', hb]) rfl
  · exact absurd hv (by simp)
  · exact absurd hv (by simp)
  · exact absurd hv (by simp)
  · exact hlist (by rw [hpad, hpad', hb]) rfl
  · exact absurd hv (by simp)
  · exact absurd hv (by simp)
  · exact absurd hv (by simp)
  · exact hlist hb rfl

theorem hexChar_ne_colon : ∀ n < 16, hexChar n ≠ ':' := by decide

theorem dedupKey_inj {txId txId' : Bytes} {address address' : Text}
    (h : dedupKey txId address = dedupKey txId' address') : txId = txId' ∧ address = address' := by
  have hcolon (b : Bytes) : (hexEncode b).count ':' = 0 := by
    refine List.count_eq_zero.mpr fun hmem => ?_
    obtain ⟨n, hn, hchar⟩ := mem_hexEncode hmem
    exact hexChar_ne_colon n hn hchar.symm
  obtain ⟨hhex, rfl⟩ := append_cons_inj (List.append_cancel_left h) (by rw [hcolon, hcolon])
  exact ⟨hexEncode_injective hhex, rfl⟩

/-- The key under which a push is known. -/
def keyOf (encode : ℕ → Bytes → Text) (push : FundsPush) : Option Text :=
  (toRpcAddress encode push.address).map (dedupKey push.txId)

/-! ## The cache -/

theorem pruneFrom_spec {nowMs : ℕ} {seen : Partition Text ℕ} {order : List (ℕ × Text)}
    (hkeys : ∀ key, (get seen key).isSome = true ↔ key ∈ order.map Prod.snd)
    (hnodup : (order.map Prod.snd).Nodup) :
    (∀ key, (get (SentTxCache.pruneFrom nowMs seen order).seen key).isSome = true ↔
        key ∈ (SentTxCache.pruneFrom nowMs seen order).order.map Prod.snd) ∧
      (SentTxCache.pruneFrom nowMs seen order).order <:+ order ∧
      ∀ e ∈ order, e ∈ (SentTxCache.pruneFrom nowMs seen order).order ∨ e.1 + sentTtlMs < nowMs := by
  induction order generalizing seen with
  | nil => exact ⟨hkeys, List.suffix_rfl, by simp⟩
  | cons entry order ih =>
    unfold SentTxCache.pruneFrom
    split
    · exact ⟨hkeys, List.suffix_rfl, fun e he => .inl he⟩
    · next hpast =>
      obtain ⟨hfresh, hnodup'⟩ := List.nodup_cons.mp hnodup
      have hkeys' : ∀ key, (get (erase seen entry.2) key).isSome = true ↔ key ∈ order.map Prod.snd := by
        intro key
        rw [get_erase]
        split
        · next heq => exact iff_of_false (by simp) (heq ▸ hfresh)
        · next hne => rw [hkeys, List.map_cons, List.mem_cons, or_iff_right hne]
      obtain ⟨hseen, hsuffix, hkept⟩ := ih hkeys' hnodup'
      refine ⟨hseen, hsuffix.trans (List.suffix_cons entry order), fun e he => ?_⟩
      rcases List.mem_cons.mp he with rfl | he
      · exact .inr (by omega)
      · exact hkept e he

/-- The cache holds the keys of the pushes that were decided, but for those whose time is over when no
clock reading is past `top`. -/
structure CacheHolds (encode : ℕ → Bytes → Text) (pushes : List FundsPush) (top : ℕ) (c : SentTxCache) :
    Prop where
  keys : ∀ key, (get c.seen key).isSome = true ↔ key ∈ c.order.map Prod.snd
  nodup : (c.order.map Prod.snd).Nodup
  known : ∀ e ∈ c.order, ∃ push ∈ pushes, keyOf encode push = some e.2
  held : ∀ push ∈ pushes, ∀ key ∈ keyOf encode push,
    (push.markedMs, key) ∈ c.order ∨ push.markedMs + sentTtlMs < top

variable {pushes : List FundsPush} {top : ℕ} {c : SentTxCache}

theorem CacheHolds.mono (h : CacheHolds encode pushes top c) {top' : ℕ} (htop : top ≤ top') :
    CacheHolds encode pushes top' c :=
  ⟨h.keys, h.nodup, h.known, fun push hpush key hkey =>
    (h.held push hpush key hkey).imp_right fun hpast => hpast.trans_le htop⟩

theorem CacheHolds.prune (h : CacheHolds encode pushes top c) {nowMs : ℕ} (htop : top ≤ nowMs) :
    CacheHolds encode pushes nowMs (SentTxCache.pruneFrom nowMs c.seen c.order) := by
  obtain ⟨hkeys, hsuffix, hkept⟩ := pruneFrom_spec h.keys h.nodup
  refine ⟨hkeys, h.nodup.sublist (hsuffix.sublist.map _), fun e he => h.known e (hsuffix.subset he),
    fun push hpush key hkey => ?_⟩
  rcases h.held push hpush key hkey with hmem | hpast
  · exact hkept _ hmem
  · exact .inr (hpast.trans_le htop)

/-- A key that is known belongs to a push. -/
theorem CacheHolds.mark_known (h : CacheHolds encode pushes top c) {nowMs : ℕ} (htop : top ≤ nowMs)
    {key : Text} (hmarked : (c.markSeen key nowMs).2 = false) :
    CacheHolds encode pushes nowMs (c.markSeen key nowMs).1 ∧
      ∃ push ∈ pushes, keyOf encode push = some key := by
  have hpruned := h.prune htop
  unfold SentTxCache.markSeen at hmarked ⊢
  dsimp only at hmarked ⊢
  split at hmarked
  · next hseen =>
    rw [if_pos hseen]
    obtain ⟨e, he, rfl⟩ := List.mem_map.mp ((hpruned.keys key).mp hseen)
    exact ⟨hpruned, hpruned.known e he⟩
  · cases hmarked

/-- A key that is not belongs to no push of the time before. -/
theorem CacheHolds.mark_new (h : CacheHolds encode pushes top c) {nowMs : ℕ} (htop : top ≤ nowMs)
    {key : Text} (hmarked : (c.markSeen key nowMs).2 = true) :
    (∀ push ∈ pushes, keyOf encode push = some key → push.markedMs + sentTtlMs < nowMs) ∧
      ∀ push, keyOf encode push = some key → push.markedMs = nowMs →
        CacheHolds encode (pushes ++ [push]) nowMs (c.markSeen key nowMs).1 := by
  have hpruned := h.prune htop
  unfold SentTxCache.markSeen at hmarked ⊢
  dsimp only at hmarked ⊢
  split at hmarked
  · cases hmarked
  · next hunseen =>
    rw [if_neg hunseen]
    have hnew : key ∉ (SentTxCache.pruneFrom nowMs c.seen c.order).order.map Prod.snd :=
      fun hmem => hunseen ((hpruned.keys key).mpr hmem)
    refine ⟨fun push hpush hkey => ?_, fun push hkey hmarked => ?_⟩
    · rcases hpruned.held push hpush key hkey with hmem | hpast
      · exact absurd (List.mem_map_of_mem hmem) hnew
      · exact hpast
    · refine ⟨fun key' => ?_, ?_, fun e he => ?_, fun push' hpush' key' hkey' => ?_⟩
      · rw [get_put, List.map_append, List.mem_append, List.map_singleton, List.mem_singleton]
        split
        · next heq => exact iff_of_true rfl (.inr heq)
        · next hne => rw [hpruned.keys, or_iff_left hne]
      · rw [List.map_append, List.map_singleton]
        exact hpruned.nodup.append (List.nodup_singleton _) (by simpa using hnew)
      · rcases List.mem_append.mp he with he | he
        · obtain ⟨push', hpush', hkey'⟩ := hpruned.known e he
          exact ⟨push', List.mem_append_left _ hpush', hkey'⟩
        · obtain rfl := List.mem_singleton.mp he
          exact ⟨push, by simp, hkey⟩
      · rcases List.mem_append.mp hpush' with hpush' | hpush'
        · exact (hpruned.held push' hpush' key' hkey').imp_left (List.mem_append_left _)
        · obtain rfl := List.mem_singleton.mp hpush'
          obtain rfl := Option.some.inj (hkey.symm.trans hkey')
          exact .inl (by simp [hmarked])

end

/-! ## The rate limit -/

/-- When the pushes that the limit let through to a device were decided. -/
def sends (pushes : List FundsPush) (token : Text) : List ℕ :=
  (pushes.filter fun push => token ∈ push.allowed).map (·.decidedMs)

/-- The device has had as many pushes as the window allows. -/
def Limited (pushes : List FundsPush) (token : Text) (nowMs : ℕ) : Prop :=
  watchOnlyRateMax ≤ ((sends pushes token).filter fun t => nowMs - t ≤ watchOnlyRateWindowMs).length

def windowOf (rate : Partition Text (List ℕ)) (token : Text) : List ℕ := (get rate token).getD []

def liveWindow (rate : Partition Text (List ℕ)) (token : Text) (nowMs : ℕ) : List ℕ :=
  (windowOf rate token).dropWhile fun front => watchOnlyRateWindowMs < nowMs - front

/-- In a window in order of time, what stays when the front is dropped is all recent. -/
theorem recent_of_sorted {l : List ℕ} (hsorted : l.Pairwise (· ≤ ·)) (nowMs : ℕ) :
    ∀ t ∈ l.dropWhile (fun front => watchOnlyRateWindowMs < nowMs - front),
      nowMs - t ≤ watchOnlyRateWindowMs := by
  induction l with
  | nil => simp
  | cons front l ih =>
    obtain ⟨hfront, hsorted'⟩ := List.pairwise_cons.mp hsorted
    rw [List.dropWhile_cons]
    split
    · exact ih hsorted'
    · next hrecent =>
      have hle : nowMs - front ≤ watchOnlyRateWindowMs := not_lt.mp (by simpa using hrecent)
      intro t ht
      rcases List.mem_cons.mp ht with rfl | ht
      · exact hle
      · exact (Nat.sub_le_sub_left (hfront t ht) nowMs).trans hle

theorem windowOf_put (rate : Partition Text (List ℕ)) (token t : Text) (l : List ℕ) :
    windowOf (put rate token l) t = if t = token then l else windowOf rate t := by
  rw [windowOf, get_put]
  split <;> rfl

theorem allow_spec (rate : Partition Text (List ℕ)) (token : Text) (nowMs : ℕ) :
    ((allowWatchOnlyPush rate token nowMs).2 = false →
        watchOnlyRateMax ≤ (liveWindow rate token nowMs).length) ∧
      (∀ t ≠ token, windowOf (allowWatchOnlyPush rate token nowMs).1 t = windowOf rate t) ∧
      windowOf (allowWatchOnlyPush rate token nowMs).1 token <:+
        windowOf rate token ++ if (allowWatchOnlyPush rate token nowMs).2 = true then [nowMs] else [] := by
  have hsuffix : liveWindow rate token nowMs <:+ windowOf rate token := List.dropWhile_suffix _
  unfold allowWatchOnlyPush
  dsimp only
  split
  · next hfull =>
    refine ⟨fun _ => hfull, fun t ht => by rw [windowOf_put, if_neg ht], ?_⟩
    rw [windowOf_put, if_pos rfl, if_neg (by simp), List.append_nil]
    exact hsuffix
  · refine ⟨by simp, fun t ht => by rw [windowOf_put, if_neg ht], ?_⟩
    rw [windowOf_put, if_pos rfl, if_pos rfl]
    obtain ⟨old, hold⟩ := hsuffix
    refine ⟨old, ?_⟩
    rw [← List.append_assoc]
    exact congrArg (· ++ [nowMs]) hold

/-- A device is retained unless its window is full, and only then its window grows. -/
theorem retain_spec {tokens : List Text} (hnodup : tokens.Nodup) (rate : Partition Text (List ℕ))
    (nowMs : ℕ) :
    (retainAllowed rate nowMs tokens).2.Sublist tokens ∧
      (∀ t ∈ tokens, t ∈ (retainAllowed rate nowMs tokens).2 ∨
        watchOnlyRateMax ≤ (liveWindow rate t nowMs).length) ∧
      ∀ t, windowOf (retainAllowed rate nowMs tokens).1 t <:+
        windowOf rate t ++ if t ∈ (retainAllowed rate nowMs tokens).2 then [nowMs] else [] := by
  induction tokens generalizing rate with
  | nil => exact ⟨.slnil, by simp, fun t => by simp [retainAllowed]⟩
  | cons token tokens ih =>
    obtain ⟨hfresh, hnodup'⟩ := List.nodup_cons.mp hnodup
    obtain ⟨hfull, hother, hwindow⟩ := allow_spec rate token nowMs
    obtain ⟨hsublist, hretained, hwindows⟩ := ih hnodup' (allowWatchOnlyPush rate token nowMs).1
    have habsent : token ∉ (retainAllowed (allowWatchOnlyPush rate token nowMs).1 nowMs tokens).2 :=
      fun hmem => hfresh (hsublist.subset hmem)
    have hself := hwindows token
    rw [if_neg habsent, List.append_nil] at hself
    by_cases hallowed : (allowWatchOnlyPush rate token nowMs).2 = true
    · have heq : retainAllowed rate nowMs (token :: tokens) =
          ((retainAllowed (allowWatchOnlyPush rate token nowMs).1 nowMs tokens).1,
            token :: (retainAllowed (allowWatchOnlyPush rate token nowMs).1 nowMs tokens).2) := by
        rw [retainAllowed, if_pos hallowed]
      rw [heq]
      refine ⟨hsublist.cons_cons token, fun t ht => ?_, fun t => ?_⟩
      · rcases List.mem_cons.mp ht with rfl | ht
        · exact .inl List.mem_cons_self
        · have hne : t ≠ token := fun heq => hfresh (heq ▸ ht)
          have hlive := hretained t ht
          rw [liveWindow, hother t hne, ← liveWindow] at hlive
          exact hlive.imp_left (List.mem_cons_of_mem token)
      · by_cases hne : t = token
        · subst hne
          rw [if_pos List.mem_cons_self]
          rw [if_pos hallowed] at hwindow
          exact hself.trans hwindow
        · have hmem : t ∈ token :: (retainAllowed (allowWatchOnlyPush rate token nowMs).1 nowMs tokens).2 ↔
              t ∈ (retainAllowed (allowWatchOnlyPush rate token nowMs).1 nowMs tokens).2 := by
            rw [List.mem_cons, or_iff_right hne]
          simp only [hmem]
          exact hother t hne ▸ hwindows t
    · have heq : retainAllowed rate nowMs (token :: tokens) =
          ((retainAllowed (allowWatchOnlyPush rate token nowMs).1 nowMs tokens).1,
            (retainAllowed (allowWatchOnlyPush rate token nowMs).1 nowMs tokens).2) := by
        rw [retainAllowed, if_neg hallowed]
      rw [heq]
      refine ⟨hsublist.cons token, fun t ht => ?_, fun t => ?_⟩
      · rcases List.mem_cons.mp ht with rfl | ht
        · exact .inr (hfull (Bool.eq_false_iff.mpr hallowed))
        · have hne : t ≠ token := fun heq => hfresh (heq ▸ ht)
          have hlive := hretained t ht
          rwa [liveWindow, hother t hne, ← liveWindow] at hlive
      · by_cases hne : t = token
        · subst hne
          rw [if_neg habsent, List.append_nil]
          rw [if_neg hallowed, List.append_nil] at hwindow
          exact hself.trans hwindow
        · exact hother t hne ▸ hwindows t

/-! ## Rounds -/

section
variable {Address Ext : Type}

/-- What is decided of a credit of the event, after the pushes before. -/
structure DecidedOf (env : RegistryEnv Address AddressPayload) (r : Registry AddressPayload Ext)
    (event : FundsPushEvent) (before : List FundsPush) (push : FundsPush) : Prop where
  txId : push.txId = event.txId
  credit : (push.address, push.amount) ∈ event.credited
  allowed : push.allowed.Sublist (sortedSet (watchOnlyTokens env r push.address event.senders))
  sent : push.sent = deliver r (push.allowed.take maxPushFanout) "address_activity".toList
  limit : ∀ token ∈ watchOnlyTokens env r push.address event.senders,
    token ∈ push.allowed ∨ Limited before token push.decidedMs

/-- The dispatcher, when no clock reading is past `top`. -/
structure Deciding (env : RegistryEnv Address AddressPayload) (encode : ℕ → Bytes → Text)
    (r : Registry AddressPayload Ext) (chat : Env) (all : List ChatBlocks.RpcTransaction) (top : ℕ)
    (d : PushDispatcher) : Prop where
  cache : CacheHolds encode d.pushes top d.sentCache
  rate : ∀ token, windowOf d.watchOnlyRate token <:+ sends d.pushes token
  sorted : (d.pushes.map (·.decidedMs)).Pairwise (· ≤ ·)
  bounded : ∀ push ∈ d.pushes, push.decidedMs ≤ top
  once : d.pushes.Pairwise fun p q => p.txId = q.txId → p.address = q.address →
    p.markedMs + sentTtlMs < q.markedMs
  decided : ∀ before push after, d.pushes = before ++ push :: after →
    ∃ event tx, tx ∈ all ∧ Told chat (watchOnlySet env r) all tx event ∧
      DecidedOf env r event before push

variable {env : RegistryEnv Address AddressPayload} {encode : ℕ → Bytes → Text}
  {r : Registry AddressPayload Ext} {chat : Env} {all : List ChatBlocks.RpcTransaction} {top : ℕ}
  {d : PushDispatcher}

theorem Deciding.mono (h : Deciding env encode r chat all top d) {top' : ℕ} (htop : top ≤ top') :
    Deciding env encode r chat all top' d :=
  { h with
    cache := h.cache.mono htop
    bounded := fun push hpush => (h.bounded push hpush).trans htop }

/-- A full window is a full share. -/
theorem limited_of_full {pushes : List FundsPush} {rate : Partition Text (List ℕ)} {token : Text}
    {nowMs : ℕ} (hrate : windowOf rate token <:+ sends pushes token)
    (hsorted : (pushes.map (·.decidedMs)).Pairwise (· ≤ ·))
    (hfull : watchOnlyRateMax ≤ (liveWindow rate token nowMs).length) : Limited pushes token nowMs := by
  have hsends : (sends pushes token).Pairwise (· ≤ ·) :=
    hsorted.sublist (List.filter_sublist.map _)
  have hrecent := recent_of_sorted (hsends.sublist hrate.sublist) nowMs
  have hlive : liveWindow rate token nowMs <:+ sends pushes token :=
    (List.dropWhile_suffix _).trans hrate
  have hself : (liveWindow rate token nowMs).filter (fun t => nowMs - t ≤ watchOnlyRateWindowMs) =
      liveWindow rate token nowMs := List.filter_eq_self.mpr fun t ht => decide_eq_true (hrecent t ht)
  exact hfull.trans (hself ▸ (hlive.sublist.filter _).length_le)

theorem sends_append (pushes : List FundsPush) (push : FundsPush) (token : Text) :
    sends (pushes ++ [push]) token =
      sends pushes token ++ if token ∈ push.allowed then [push.decidedMs] else [] := by
  rw [sends, List.filter_append, List.map_append, ← sends]
  by_cases hmem : token ∈ push.allowed
  · rw [if_pos hmem, List.filter_cons_of_pos (by simpa using hmem), List.filter_nil, List.map_singleton]
  · rw [if_neg hmem, List.filter_cons_of_neg (by simpa using hmem), List.filter_nil, List.map_nil]

theorem nodup_sortedSet (l : List Text) : (sortedSet l).Nodup :=
  (List.perm_insertionSort _ _).nodup_iff.mpr (List.nodup_dedup l)

/-- A round knows its key of a push that was decided, or decides a push. -/
theorem deciding_credit (hencode : ∀ v b v' b', encode v b = encode v' b' → v = v' ∧ b = b')
    (h : Deciding env encode r chat all top d) {event : FundsPushEvent} {tx : ChatBlocks.RpcTransaction}
    (htx : tx ∈ all) (htold : Told chat (watchOnlySet env r) all tx event)
    {credit : AddressPayload × ℕ} (hcredit : credit ∈ event.credited) {markMs nowMs : ℕ}
    (hmark : top ≤ markMs) (hnow : markMs ≤ nowMs) :
    Deciding env encode r chat all nowMs (handleCredit env encode r d event credit markMs nowMs) ∧
      (∃ push ∈ (handleCredit env encode r d event credit markMs nowMs).pushes,
        push.txId = event.txId ∧ push.address = credit.1) ∧
      d.pushes <+: (handleCredit env encode r d event credit markMs nowMs).pushes := by
  obtain ⟨i, output, -, hstandard, -, -⟩ := htold.credited credit hcredit
  obtain ⟨address, haddress⟩ := @toRpcAddress_some _ encode _ _ hstandard
  have hkey (push : FundsPush) (hid : push.txId = event.txId) (haddr : push.address = credit.1) :
      keyOf encode push = some (dedupKey event.txId address) := by
    rw [keyOf, haddr, hid, haddress, Option.map_some]
  have hlater := h.mono (hmark.trans hnow)
  unfold handleCredit
  rw [haddress]
  dsimp only
  cases hmarked : (d.sentCache.markSeen (dedupKey event.txId address) markMs).2 with
  | false =>
    rw [if_neg (by simp)]
    obtain ⟨hcache, push, hpush, hknown⟩ := h.cache.mark_known hmark hmarked
    refine ⟨{ hlater with cache := hcache.mono hnow }, ⟨push, hpush, ?_⟩, List.prefix_rfl⟩
    obtain ⟨before, after, hsplit⟩ := List.append_of_mem hpush
    obtain ⟨event', tx', -, htold', hdecided⟩ := h.decided before push after hsplit
    obtain ⟨i', output', -, hstandard', -, -⟩ := htold'.credited _ hdecided.credit
    obtain ⟨address', haddress', hsame⟩ := Option.map_eq_some_iff.mp hknown
    obtain ⟨hid, rfl⟩ := dedupKey_inj hsame
    exact ⟨hid, toRpcAddress_inj hencode hstandard' hstandard (haddress'.trans haddress.symm)⟩
  | true =>
    rw [if_pos rfl]
    obtain ⟨hfresh, hcache⟩ := h.cache.mark_new hmark hmarked
    obtain ⟨hsublist, hretained, hwindows⟩ := retain_spec
      (nodup_sortedSet (watchOnlyTokens env r credit.1 event.senders)) d.watchOnlyRate nowMs
    generalize retainAllowed d.watchOnlyRate nowMs
      (sortedSet (watchOnlyTokens env r credit.1 event.senders)) = retained at *
    have hdecided : DecidedOf env r event d.pushes
        ⟨event.txId, credit.1, credit.2, event.timestamp, markMs, nowMs, retained.2,
          deliver r (retained.2.take maxPushFanout) "address_activity".toList⟩ :=
      ⟨rfl, hcredit, hsublist, rfl, fun token htoken => (hretained token (mem_sortedSet.mpr htoken)).imp_right
        fun hfull => limited_of_full (h.rate token) h.sorted hfull⟩
    refine ⟨⟨(hcache _ (hkey _ rfl rfl) rfl).mono hnow, fun token => ?_, ?_, fun push hpush => ?_, ?_,
      fun before push after hsplit => ?_⟩, ⟨_, List.mem_append_right _ List.mem_cons_self, rfl, rfl⟩, List.prefix_append _ _⟩
    · rw [sends_append]
      obtain ⟨old, hold⟩ := h.rate token
      refine (hwindows token).trans ⟨old, ?_⟩
      dsimp only
      rw [← List.append_assoc, hold]
    · rw [List.map_append]
      refine List.pairwise_append.mpr ⟨h.sorted, List.pairwise_singleton _ _, fun t ht t' ht' => ?_⟩
      obtain ⟨push, hpush, rfl⟩ := List.mem_map.mp ht
      obtain rfl := List.mem_singleton.mp ht'
      exact hlater.bounded push hpush
    · rcases List.mem_append.mp hpush with hpush | hpush
      · exact hlater.bounded push hpush
      · obtain rfl := List.mem_singleton.mp hpush
        exact le_rfl
    · refine List.pairwise_append.mpr ⟨h.once, List.pairwise_singleton _ _, fun push hpush q hq => ?_⟩
      obtain rfl := List.mem_singleton.mp hq
      intro hid haddr
      exact hfresh push hpush (hkey push hid haddr)
    · rcases List.eq_nil_or_concat' after with rfl | ⟨after, last, rfl⟩
      · obtain ⟨rfl, hlast⟩ := List.append_inj' hsplit rfl
        obtain rfl := List.singleton_inj.mp hlast
        exact ⟨event, tx, htx, htold, hdecided⟩
      · rw [← List.cons_append, ← List.append_assoc] at hsplit
        exact h.decided before push after (List.append_inj_left' hsplit rfl)

end

end KaChatIndexer.FundsDispatch
