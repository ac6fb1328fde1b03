import KaChatIndexer.ScheduledPosts

/-!
# Coins and quotas of scheduled posts

A request reads what waits under its own key bytes, and inserts two awaits later. While what waits
at its address is what it has read, or harmless, each coin backs one waiting row and an address has
at most fifty.
-/
namespace KaChatIndexer.ScheduledCoins
open ByteStrings KaText Interleaving Interleaving.Prog ScheduledPosts

variable {env : Env} {owner : Outpoint → Option Bytes}

/-- The coins that a row's transaction spends. -/
def coinsOf (env : Env) (r : Row) : List Outpoint := (txOutpoints env r.transactionJson).getD []

/-- The waiting rows of an address, in whatever form of its key. -/
def waitingAt (address : Option Bytes) (s : Server) : List Row :=
  s.rows.filter fun r => keyAddress r.pubkey = address ∧ r.status = .scheduled

/-- When a row is inserted, the waiting rows of its address that its request has not read spend none
of its coins, and if there are any, fewer than fifty wait. -/
def Covered (env : Env) : Sql → Server → Prop
  | .insertPost post seen, s =>
      ∀ r ∈ waitingAt (keyAddress post.pubkey) s, r.txId ≠ post.txId → r ∉ seen →
        (∀ o ∈ coinsOf env r, o ∉ (txOutpoints env post.transactionJson).getD []) ∧
          (waitingAt (keyAddress post.pubkey) s).length < maxScheduledPerPubkey
  | _, _ => True

instance (ev : Sql) (s : Server) : Decidable (Covered env ev s) :=
  match ev with
  | .insertPost post seen => inferInstanceAs (Decidable (∀ r ∈ waitingAt (keyAddress post.pubkey) s,
      r.txId ≠ post.txId → r ∉ seen →
        (∀ o ∈ coinsOf env r, o ∉ (txOutpoints env post.transactionJson).getD []) ∧
          (waitingAt (keyAddress post.pubkey) s).length < maxScheduledPerPubkey))
  | .seenSelect | .waitingSelect | .unspentCoins | .cancelUpdate _ _ | .tick => .isTrue trivial

/-- What the node and the JSON reader say: a request's transaction is JSON, and the coins of an
address are its owner's. -/
def Answered (env : Env) (owner : Outpoint → Option Bytes) : Job → Prop
  | .schedule req _ _ unspent => env.jsonError req.transaction = none ∧
      ∀ coins ∈ unspent, ∀ o ∈ coins,
        owner o = pubkeyAddress (toAsciiLowercase (trim req.pubkey))
  | _ => True

/-- Every waiting row spends coins of its own address that no other waiting row spends, and no
address has more than fifty. -/
structure Backed (env : Env) (owner : Outpoint → Option Bytes) (s : Server) : Prop where
  unique : (s.rows.map (·.txId)).Nodup
  json : ∀ r ∈ s.rows, r.status = .scheduled → env.jsonError r.transactionJson = none ∧
    (txOutpoints env r.transactionJson).isSome
  owned : ∀ r ∈ s.rows, r.status = .scheduled → ∀ o ∈ coinsOf env r, owner o = keyAddress r.pubkey
  apart : ∀ r ∈ s.rows, ∀ q ∈ s.rows, r.status = .scheduled → q.status = .scheduled → r ≠ q →
    ∀ o ∈ coinsOf env r, o ∉ coinsOf env q
  quota : ∀ address, (waitingAt address s).length ≤ maxScheduledPerPubkey

def contract (env : Env) (owner : Outpoint → Option Bytes) : Contract Server Sql Job where
  rely s t := Backed env owner s → Backed env owner t
  inv := Backed env owner
  told _ _ _ := True
  refl _ := id
  trans _ _ _ h h' := h' ∘ h
  inv_rely _ _ h := h
  told_rely _ _ _ _ _ := id

theorem mem_waitingAt {address : Option Bytes} {s : Server} {r : Row} :
    r ∈ waitingAt address s ↔ r ∈ s.rows ∧ keyAddress r.pubkey = address ∧ r.status = .scheduled := by
  rw [waitingAt, List.mem_filter, decide_eq_true_iff]

/-! ## What makes no row wait -/

section
variable {s t : Server}

/-- Rows may go. -/
theorem backed_filter {p : Row → Bool} (h : Backed env owner s) (ht : t.rows = s.rows.filter p) :
    Backed env owner t := by
  have hmem {r : Row} (hr : r ∈ t.rows) : r ∈ s.rows := List.mem_of_mem_filter (ht ▸ hr)
  refine ⟨?_, fun r hr => h.json r (hmem hr), fun r hr => h.owned r (hmem hr),
    fun r hr q hq => h.apart r (hmem hr) q (hmem hq), fun address => ?_⟩
  · rw [ht]
    exact h.unique.sublist (List.filter_sublist.map _)
  · refine le_trans ?_ (h.quota address)
    unfold waitingAt
    rw [ht]
    exact (List.filter_sublist.filter _).length_le

/-- A row may change once it no longer waits. -/
theorem backed_map {f : Row → Row} (h : Backed env owner s) (ht : t.rows = s.rows.map f)
    (hid : ∀ r, (f r).txId = r.txId) (hkept : ∀ r, (f r).status = .scheduled → f r = r) :
    Backed env owner t := by
  have hmem {r : Row} (hr : r ∈ t.rows) (hs : r.status = .scheduled) : r ∈ s.rows := by
    rw [ht] at hr
    obtain ⟨q, hq, rfl⟩ := List.mem_map.mp hr
    rw [hkept q hs]
    exact hq
  refine ⟨?_, fun r hr hs => h.json r (hmem hr hs) hs, fun r hr hs => h.owned r (hmem hr hs) hs,
    fun r hr q hq hs hs' => h.apart r (hmem hr hs) q (hmem hq hs') hs hs', fun address => ?_⟩
  · rw [ht, List.map_map, show (fun r : Row => r.txId) ∘ f = fun r => r.txId from funext hid]
    exact h.unique
  · refine le_trans ?_ (h.quota address)
    unfold waitingAt
    rw [ht, ← List.countP_eq_length_filter, ← List.countP_eq_length_filter, List.countP_map]
    refine List.countP_mono_left fun r _ hr => ?_
    obtain ⟨hkey, hs⟩ := of_decide_eq_true hr
    rw [hkept r hs] at hkey hs
    exact decide_eq_true ⟨hkey, hs⟩

theorem backed_same (h : Backed env owner s) (ht : t.rows = s.rows) : Backed env owner t :=
  backed_map (f := id) h (by rw [ht, List.map_id]) (fun _ => rfl) fun _ _ => rfl

theorem backed_postNext {row : Row} {due : List Row} {coins : Coins} (input : Tick)
    (h : Backed env owner s) : Backed env owner (s.postNext env input row due coins) := by
  refine backed_same h ?_
  unfold Server.postNext
  repeat' split
  all_goals rfl

theorem backed_tick (input : Tick) (h : Backed env owner s) :
    Backed env owner (s.tick env input) := by
  unfold Server.tick
  split
  · exact backed_filter h rfl
  · refine backed_map h rfl (fun r => ?_) fun r hr => ?_
    · unfold clearFinished
      split <;> rfl
    · unfold clearFinished at hr ⊢
      split at hr
      · next hfinished => exact absurd hr hfinished
      · next hwaits => exact if_neg hwaits
  · exact backed_same h rfl
  · exact backed_same h rfl
  · exact backed_postNext input h
  · next row due coins _ =>
    refine backed_map h rfl (fun r => ?_) fun r hr => ?_
    · unfold markSubmitted
      split <;> rfl
    · unfold markSubmitted at hr ⊢
      split at hr
      · cases hr
      · next hother => exact if_neg hother
  · refine backed_map h rfl (fun r => ?_) fun r hr => ?_
    · unfold markFailed
      split <;> rfl
    · unfold markFailed at hr ⊢
      split at hr
      · cases hr
      · next hother => exact if_neg hother

theorem backed_cancel (txId pubkey : Bytes) (h : Backed env owner s) :
    Backed env owner (s.cancelPost txId pubkey).2 := by
  unfold Server.cancelPost
  split
  · exact h
  · refine backed_map h rfl (fun r => ?_) fun r hr => ?_
    · split <;> rfl
    · split at hr
      · cases hr
      · next hother => exact if_neg hother

end

/-! ## What a request inserts -/

/-- What a request has found out by the time it inserts. -/
structure Reserved (env : Env) (owner : Outpoint → Option Bytes) (post : NewPost)
    (seen : List Row) : Prop where
  json : env.jsonError post.transactionJson = none
  inputs : ∃ inputs, txOutpoints env post.transactionJson = some inputs ∧
    (∀ o ∈ inputs, owner o = keyAddress post.pubkey) ∧
    firstReserved inputs (seen.filterMap (reservation env)) = none
  few : seen.length < maxScheduledPerPubkey

theorem reserved_apart {post : NewPost} {seen : List Row} {r : Row}
    (h : Reserved env owner post seen) (hr : r ∈ seen) (hjson : env.jsonError r.transactionJson = none)
    (hread : (txOutpoints env r.transactionJson).isSome) :
    ∀ o ∈ coinsOf env r, o ∉ (txOutpoints env post.transactionJson).getD [] := by
  obtain ⟨inputs, hinputs, -, hfirst⟩ := h.inputs
  obtain ⟨theirs, htheirs⟩ := Option.isSome_iff_exists.mp hread
  intro o ho hpost
  rw [hinputs, Option.getD_some] at hpost
  rw [coinsOf, htheirs, Option.getD_some] at ho
  have hothers : (hexEncode r.txId, theirs) ∈ seen.filterMap (reservation env) := by
    refine List.mem_filterMap.mpr ⟨r, hr, ?_⟩
    rw [reservation, hjson, htheirs]
    rfl
  have hnone := List.findSome?_eq_none_iff.mp hfirst o hpost
  rw [Option.map_eq_none_iff, List.find?_eq_none] at hnone
  exact hnone _ hothers (decide_eq_true ho)

/-- The rows that wait at an address after the insert. -/
theorem waitingAt_append {s t : Server} {r : Row} {address : Option Bytes}
    (ht : t.rows = s.rows ++ [r]) (hr : r.status = .scheduled) :
    waitingAt address t =
      waitingAt address s ++ if keyAddress r.pubkey = address then [r] else [] := by
  unfold waitingAt
  rw [ht, List.filter_append, List.filter_singleton]
  by_cases h : keyAddress r.pubkey = address <;> simp [h, hr]

theorem backed_insert {post : NewPost} {seen : List Row} {s : Server} (h : Backed env owner s)
    (hreserved : Reserved env owner post seen) (hmay : Covered env (.insertPost post seen) s) :
    Backed env owner (s.insertPost post) := by
  unfold Server.insertPost
  dsimp only
  split
  · exact backed_same h rfl
  · next hnew =>
    obtain ⟨inputs, hinputs, howned, -⟩ := hreserved.inputs
    have hfresh (r : Row) (hr : r ∈ s.rows) : r.txId ≠ post.txId := fun heq =>
      hnew (List.any_eq_true.mpr ⟨r, hr, decide_eq_true heq⟩)
    let row : Row := ⟨post.txId, post.pubkey, post.notBefore, post.transactionJson,
      post.postContent, .scheduled, none, none, post.createdAt, s.inserted⟩
    have hcoins : coinsOf env row = inputs := by
      show (txOutpoints env post.transactionJson).getD [] = inputs
      rw [hinputs, Option.getD_some]
    have hpost : (txOutpoints env post.transactionJson).getD [] = coinsOf env row := rfl
    have happart (r : Row) (hr : r ∈ s.rows) (hs : r.status = .scheduled) :
        ∀ o ∈ coinsOf env r, o ∉ coinsOf env row := by
      by_cases hkey : keyAddress r.pubkey = keyAddress post.pubkey
      · by_cases hseen : r ∈ seen
        · exact reserved_apart hreserved hseen (h.json r hr hs).1 (h.json r hr hs).2
        · exact (hmay r (mem_waitingAt.mpr ⟨hr, hkey, hs⟩) (hfresh r hr) hseen).1
      · intro o ho ho'
        rw [hcoins] at ho'
        exact hkey ((h.owned r hr hs o ho).symm.trans (howned o ho'))
    have hcases {r : Row} (hr : r ∈ s.rows ++ [row]) : r ∈ s.rows ∨ r = row :=
      (List.mem_append.mp hr).imp_right List.mem_singleton.mp
    refine ⟨?_, fun r hr hs => ?_, fun r hr hs => ?_, fun r hr q hq hs hs' hne => ?_,
      fun address => ?_⟩
    · rw [List.map_append, List.nodup_append]
      refine ⟨h.unique, List.nodup_singleton _, fun a ha b hb => ?_⟩
      obtain ⟨r, hr, rfl⟩ := List.mem_map.mp ha
      obtain rfl := List.mem_singleton.mp hb
      exact hfresh r hr
    · rcases hcases hr with hr | rfl
      · exact h.json r hr hs
      · exact ⟨hreserved.json, by rw [hinputs]; rfl⟩
    · rcases hcases hr with hr | rfl
      · exact h.owned r hr hs
      · rw [hcoins]
        exact howned
    · rcases hcases hr with hr | rfl <;> rcases hcases hq with hq | rfl
      · exact h.apart r hr q hq hs hs' hne
      · exact happart r hr hs
      · exact fun o ho ho' => happart q hq hs' o ho' ho
      · exact absurd rfl hne
    · rw [waitingAt_append (r := row) rfl rfl]
      split
      · next heq =>
        have hlt : (waitingAt address s).length < maxScheduledPerPubkey := by
          subst heq
          by_cases hall : ∀ r ∈ waitingAt (keyAddress post.pubkey) s, r ∈ seen
          · have hnodup := h.unique.of_map.filter fun r : Row =>
              keyAddress r.pubkey = keyAddress post.pubkey ∧ r.status = .scheduled
            exact lt_of_le_of_lt (List.subperm_of_subset hnodup hall).length_le hreserved.few
          · push Not at hall
            obtain ⟨r, hr, hunseen⟩ := hall
            exact (hmay r hr (hfresh r (mem_waitingAt.mp hr).1) hunseen).2
        rw [List.length_append]
        exact hlt
      · rw [List.append_nil]
        exact h.quota address

/-! ## Every run -/

variable {job : Job}

theorem mem_of_firstMissing {inputs unspent : List Outpoint} (h : firstMissing inputs unspent = none) :
    ∀ o ∈ inputs, o ∈ unspent := fun o ho => by
  have hnone := List.find?_eq_none.mp h o ho
  simpa using hnone

theorem reservePost_safe {post : NewPost} {inputs : List Outpoint}
    {unspent : Option (List Outpoint)} {s : Server}
    (hjson : env.jsonError post.transactionJson = none)
    (hinputs : txOutpoints env post.transactionJson = some inputs)
    (hunspent : ∀ coins ∈ unspent, ∀ o ∈ coins, owner o = keyAddress post.pubkey) :
    (contract env owner).Safe (Covered env) job (fun _ _ => True)
      (reservePost env post inputs unspent) s := by
  refine .query_bind fun t _ _ _ => ⟨trivial, ?_⟩
  split
  · exact fun _ _ _ => trivial
  · next hfew =>
    split
    · exact fun _ _ _ => trivial
    · next hfirst =>
      refine .query_bind fun _ _ _ _ => ⟨trivial, ?_⟩
      split
      · exact fun _ _ _ => trivial
      · next coins =>
        split
        · exact fun _ _ _ => trivial
        · next hmissing =>
          have hreserved : Reserved env owner post (t.waiting post.pubkey post.txId) :=
            ⟨hjson, ⟨inputs, hinputs, fun o ho =>
              hunspent coins rfl o (mem_of_firstMissing hmissing o ho), hfirst⟩, not_le.mp hfew⟩
          exact .execute_bind fun u _ _ hmay =>
            ⟨fun hu => backed_insert hu hreserved hmay, trivial, fun _ _ _ => trivial⟩

theorem job_safe {s : Server} (h : Answered env owner job) :
    (contract env owner).Safe (Covered env) job (fun _ _ => True) (job.prog env) s := by
  cases job with
  | schedule req now seen unspent =>
    refine Contract.Safe.bind_any ?_ fun _ _ _ _ _ _ => trivial
    unfold handleSchedulePost
    split
    · exact fun _ _ _ => trivial
    · next post inputs hcheck =>
      obtain ⟨hjson, hinputs, hkey, -⟩ := check_ok hcheck
      refine Contract.Safe.bind_any ?_ fun allowed t _ => ?_
      · unfold mayWait
        split
        · exact .query_bind fun _ _ _ _ => ⟨trivial, fun _ _ _ => trivial⟩
        · exact fun _ _ _ => trivial
      · split
        · exact fun _ _ _ => trivial
        · refine Contract.Safe.bind_any ?_ fun _ u _ => ?_
          · exact reservePost_safe (hjson ▸ h.1) (hjson ▸ hinputs) fun coins hc o ho =>
              (h.2 coins hc o ho).trans hkey.symm
          · split <;> exact fun _ _ _ => trivial
  | cancel req =>
    refine .of_all (runs_job env (.cancel req)) (fun ev write hruns t hinv _ => ⟨?_, trivial⟩)
      fun _ _ => trivial
    cases hruns with
    | read => exact id
    | insert h => cases h
    | cancel txId pubkey => exact backed_cancel txId pubkey
    | tick h => cases h
  | tick input => exact fun t _ _ _ => ⟨backed_tick input, trivial, fun _ _ _ => trivial⟩

theorem backed_start : Backed env owner Server.start :=
  ⟨List.nodup_nil, fun _ h => absurd h List.not_mem_nil, fun _ h => absurd h List.not_mem_nil,
    fun _ h => absurd h List.not_mem_nil, fun _ => Nat.zero_le _⟩

/-- In every run whose inserts are covered no coin backs two waiting rows, and no address has more
than fifty. -/
theorem coins_reserved {w : World Server Sql Job}
    (hw : (server env (Answered env owner) fun _ => Covered env).Reaches Server.start w) :
    (∀ r ∈ w.state.rows, ∀ q ∈ w.state.rows, r.status = .scheduled → q.status = .scheduled →
        r ≠ q → ∀ o ∈ coinsOf env r, o ∉ coinsOf env q) ∧
      ∀ address, (waitingAt address w.state).length ≤ maxScheduledPerPubkey := by
  obtain ⟨-, hinv, -⟩ := hw.safe (contract env owner) backed_start fun _ _ h _ => job_safe h
  exact ⟨hinv.apart, hinv.quota⟩

/-! ## Two forms of one key -/

def firstJob : Job := .schedule (firstRequest 1000) 0 false sampleUnspent

def sameCoinJob : Job := .schedule (sameCoinRequest 1000) 0 false sampleUnspent

def otherCoinJob : Job := .schedule (otherCoinRequest 1000) 0 false sampleUnspent

theorem sample_answered :
    ∀ req ∈ [firstRequest 1000, sameCoinRequest 1000, otherCoinRequest 1000],
      Answered sampleEnv sampleOwner (.schedule req 0 false sampleUnspent) := by
  have hread : ∀ req ∈ [firstRequest 1000, sameCoinRequest 1000, otherCoinRequest 1000],
      sampleEnv.jsonError req.transaction = none ∧ ∀ coins ∈ sampleUnspent, ∀ o ∈ coins,
        sampleOwner o = pubkeyAddress (toAsciiLowercase (trim req.pubkey)) := by
    decide +kernel
  exact hread

/-- Two rows wait and spend one coin. -/
def sharesCoin (s : Server) : Bool :=
  s.rows.any fun r => s.rows.any fun q => r.status = .scheduled ∧ q.status = .scheduled ∧ r ≠ q ∧
    (coinsOf sampleEnv r).any fun o => o ∈ coinsOf sampleEnv q

/-- One request after the other. -/
def inTurn (second : Job) : List (Act Job) :=
  [.deliver firstJob, .deliver second] ++ List.replicate 3 (.exec 0) ++ List.replicate 3 (.exec 1)

theorem inTurn_input {second i : Job} (h : Act.deliver i ∈ inTurn second) :
    i = firstJob ∨ i = second := by
  simpa [inTurn] using h

theorem sample_runs :
    ((run (Job.prog sampleEnv) (fun _ _ _ => true) (inTurn sameCoinJob)
      (.start Server.start)).map fun w => sharesCoin w.state) = some true ∧
    ((run (Job.prog sampleEnv) (fun _ ev s => decide (Covered sampleEnv ev s)) (inTurn otherCoinJob)
      (.start Server.start)).map fun w => decide (w.state.rows.length = 2)) = some true := by
  decide +kernel

/-- A key's two forms are two keys to the quota and to the reservations. -/
theorem two_rows_one_coin : ∃ w,
    (server sampleEnv (Answered sampleEnv sampleOwner) fun _ _ _ => True).Reaches Server.start w ∧
    ∃ r ∈ w.state.rows, ∃ q ∈ w.state.rows, r.status = .scheduled ∧ q.status = .scheduled ∧ r ≠ q ∧
      ∃ o ∈ coinsOf sampleEnv r, o ∈ coinsOf sampleEnv q := by
  obtain ⟨w, hw, hshares⟩ := Option.map_eq_some_iff.mp sample_runs.1
  refine ⟨w, .run .start (fun i hi => ?_) (fun _ _ _ _ => trivial) hw, ?_⟩
  · rcases inTurn_input hi with rfl | rfl <;> exact sample_answered _ (by simp)
  · obtain ⟨r, hr, hany⟩ := List.any_eq_true.mp hshares
    obtain ⟨q, hq, hboth⟩ := List.any_eq_true.mp hany
    obtain ⟨hrs, hqs, hne, hcoins⟩ := of_decide_eq_true hboth
    obtain ⟨o, ho, hshared⟩ := List.any_eq_true.mp hcoins
    exact ⟨r, hr, q, hq, hrs, hqs, hne, o, ho, of_decide_eq_true hshared⟩

theorem two_rows_two_coins : ∃ w,
    (server sampleEnv (Answered sampleEnv sampleOwner) fun _ => Covered sampleEnv).Reaches
      Server.start w ∧ w.state.rows.length = 2 ∧
    ((∀ r ∈ w.state.rows, ∀ q ∈ w.state.rows, r.status = .scheduled → q.status = .scheduled →
        r ≠ q → ∀ o ∈ coinsOf sampleEnv r, o ∉ coinsOf sampleEnv q) ∧
      ∀ address, (waitingAt address w.state).length ≤ maxScheduledPerPubkey) := by
  obtain ⟨w, hw, hlength⟩ := Option.map_eq_some_iff.mp sample_runs.2
  have hreaches : (server sampleEnv (Answered sampleEnv sampleOwner) fun _ =>
      Covered sampleEnv).Reaches Server.start w := by
    refine .run .start (fun i hi => ?_)
      (fun _ ev s h => of_decide_eq_true (p := Covered sampleEnv ev s) h) hw
    rcases inTurn_input hi with rfl | rfl <;> exact sample_answered _ (by simp)
  exact ⟨w, hreaches, of_decide_eq_true hlength, coins_reserved hreaches⟩

end KaChatIndexer.ScheduledCoins
