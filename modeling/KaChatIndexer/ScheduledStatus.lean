import KaChatIndexer.ScheduledPosts

/-!
# What a scheduled post's status says

A tick reads its batch once and posts it row by row; the relay's answer may be lost; an insert that
finds the transaction id says nothing. Without these three the status tells the truth.
-/
namespace KaChatIndexer.ScheduledStatus
open ByteStrings KaText Interleaving Interleaving.Prog ScheduledPosts

variable {env : Env}

/-! ## The scheduler's rows -/

/-- The rows that the running tick has still to post. -/
def toPost : Scheduler → List Row
  | .posting due _ | .recording _ due _ | .failing _ _ due _ => due
  | .idle | .pruned _ | .cleared _ => []

/-- With the row whose answer it is recording. -/
def held : Scheduler → List Row
  | .posting due _ => due
  | .recording row due _ | .failing row _ due _ => row :: due
  | .idle | .pruned _ | .cleared _ => []

/-- The row that the relay has accepted and that is not recorded yet. -/
def recorded : Scheduler → Option ℕ
  | .recording row _ _ => some row.serial
  | _ => none

theorem toPost_held (c : Scheduler) : ∀ q ∈ toPost c, q ∈ held c := by
  cases c with
  | recording | failing => exact fun q => List.mem_cons_of_mem _
  | posting | idle | pruned | cleared => exact fun q hq => hq

/-- No row is cancelled that the running tick has still to post, no answer of the relay is lost after
it has accepted, and what is inserted is not there yet, or waits for the same time. -/
def Orderly : Job → Sql → Server → Prop
  | _, .cancelUpdate txId pubkey, s => ∀ r ∈ s.rows, Server.cancellable txId pubkey r = true →
      ∀ q ∈ toPost s.scheduler, q.serial ≠ r.serial
  | .tick input, .tick, _ => input.relay ≠ .lost
  | _, .insertPost post _, s => ∀ r ∈ s.rows, r.txId = post.txId →
      r.status = .scheduled ∧ r.notBefore = post.notBefore
  | _, _, _ => True

instance : (job : Job) → (ev : Sql) → (s : Server) → Decidable (Orderly job ev s)
  | _, .cancelUpdate txId pubkey, s =>
      inferInstanceAs (Decidable (∀ r ∈ s.rows, Server.cancellable txId pubkey r = true →
        ∀ q ∈ toPost s.scheduler, q.serial ≠ r.serial))
  | .tick input, .tick, _ => inferInstanceAs (Decidable (input.relay ≠ .lost))
  | .schedule _ _ _ _, .tick, _ | .cancel _, .tick, _ => isTrue trivial
  | _, .insertPost post _, s =>
      inferInstanceAs (Decidable (∀ r ∈ s.rows, r.txId = post.txId →
        r.status = .scheduled ∧ r.notBefore = post.notBefore))
  | _, .seenSelect, _ | _, .waitingSelect, _ | _, .unspentCoins, _ => isTrue trivial

/-! ## The invariant -/

structure Told (s : Server) : Prop where
  ids : (s.rows.map (·.txId)).Nodup
  serials : (s.rows.map (·.serial)).Nodup
  rowsBelow : ∀ r ∈ s.rows, r.serial < s.inserted
  heldBelow : ∀ q ∈ held s.scheduler, q.serial < s.inserted
  noticesBelow : ∀ n, .cancelled n ∈ s.notices ∨ .accepted n ∈ s.notices → n < s.inserted
  heldIds : ((held s.scheduler).map (·.txId)).Nodup
  heldId : ∀ q ∈ held s.scheduler, ∀ r ∈ s.rows, r.serial = q.serial → r.txId = q.txId
  waiting : ∀ q ∈ toPost s.scheduler, ∀ r ∈ s.rows, r.serial = q.serial → r.status ≠ .failed
  cancelled : ∀ n, .cancelled n ∈ s.notices →
    (∀ r ∈ s.rows, r.serial = n → r.status ≠ .scheduled) ∧ ∀ q ∈ toPost s.scheduler, q.serial ≠ n
  accepted : ∀ r ∈ s.rows, r.status = .scheduled → .accepted r.serial ∈ s.notices →
    recorded s.scheduler = some r.serial
  failed : ∀ r ∈ s.rows, r.status = .failed → .accepted r.serial ∉ s.notices
  silent : ∀ newer older n, s.notices = newer ++ .sent n :: older → .cancelled n ∉ older

section
variable {s : Server}

/-- Rows may go, and stop waiting; a row that fails is neither accepted nor to be posted. -/
theorem told_rows {rows : List Row} (h : Told s)
    (hids : (rows.map (·.txId)).Sublist (s.rows.map (·.txId)))
    (hserials : (rows.map (·.serial)).Sublist (s.rows.map (·.serial)))
    (hfrom : ∀ r' ∈ rows, ∃ r ∈ s.rows, r'.serial = r.serial ∧ r'.txId = r.txId ∧
      (r'.status = .scheduled → r.status = .scheduled) ∧
      (r'.status = .failed → r.status = .failed ∨ .accepted r.serial ∉ s.notices ∧
        ∀ q ∈ toPost s.scheduler, q.serial ≠ r.serial)) :
    Told { s with rows := rows } where
  ids := h.ids.sublist hids
  serials := h.serials.sublist hserials
  rowsBelow r' hr' := by
    obtain ⟨r, hr, hserial, -⟩ := hfrom r' hr'
    exact hserial ▸ h.rowsBelow r hr
  heldBelow := h.heldBelow
  noticesBelow := h.noticesBelow
  heldIds := h.heldIds
  heldId q hq r' hr' heq := by
    obtain ⟨r, hr, hserial, hid, -⟩ := hfrom r' hr'
    exact hid.trans (h.heldId q hq r hr (hserial.symm.trans heq))
  waiting q hq r' hr' heq hfailed := by
    obtain ⟨r, hr, hserial, -, -, hfail⟩ := hfrom r' hr'
    rcases hfail hfailed with hr' | ⟨-, hne⟩
    · exact h.waiting q hq r hr (hserial.symm.trans heq) hr'
    · exact hne q hq (heq.symm.trans hserial)
  cancelled n hn := by
    refine ⟨fun r' hr' heq hs => ?_, (h.cancelled n hn).2⟩
    obtain ⟨r, hr, hserial, -, hsched, -⟩ := hfrom r' hr'
    exact (h.cancelled n hn).1 r hr (hserial.symm.trans heq) (hsched hs)
  accepted r' hr' hs hacc := by
    obtain ⟨r, hr, hserial, -, hsched, -⟩ := hfrom r' hr'
    rw [hserial] at hacc ⊢
    exact h.accepted r hr (hsched hs) hacc
  failed r' hr' hfailed := by
    obtain ⟨r, hr, hserial, -, -, hfail⟩ := hfrom r' hr'
    rw [hserial]
    rcases hfail hfailed with hr' | ⟨hnot, -⟩
    · exact h.failed r hr hr'
    · exact hnot
  silent := h.silent

/-- The scheduler goes on with rows that it holds. -/
theorem told_scheduler {c : Scheduler} (h : Told s)
    (hheld : (held c).Sublist (held s.scheduler)) (hpost : ∀ q ∈ toPost c, q ∈ toPost s.scheduler)
    (hrecorded : ∀ r ∈ s.rows, r.status = .scheduled → .accepted r.serial ∈ s.notices →
      recorded c = some r.serial) :
    Told { s with scheduler := c } where
  ids := h.ids
  serials := h.serials
  rowsBelow := h.rowsBelow
  heldBelow q hq := h.heldBelow q (hheld.subset hq)
  noticesBelow := h.noticesBelow
  heldIds := h.heldIds.sublist (hheld.map _)
  heldId q hq := h.heldId q (hheld.subset hq)
  waiting q hq := h.waiting q (hpost q hq)
  cancelled n hn := ⟨(h.cancelled n hn).1, fun q hq => (h.cancelled n hn).2 q (hpost q hq)⟩
  accepted := hrecorded
  failed := h.failed
  silent := h.silent

/-- A further notice. -/
theorem told_notice {notice : Notice} (h : Told s)
    (hcancelled : ∀ n, notice = .cancelled n → n < s.inserted ∧
      (∀ r ∈ s.rows, r.serial = n → r.status ≠ .scheduled) ∧ ∀ q ∈ toPost s.scheduler, q.serial ≠ n)
    (haccepted : ∀ n, notice = .accepted n → n < s.inserted ∧
      (∀ r ∈ s.rows, r.serial = n → r.status ≠ .failed) ∧ recorded s.scheduler = some n)
    (hsent : ∀ n, notice = .sent n → .cancelled n ∉ s.notices) :
    Told { s with notices := notice :: s.notices } where
  ids := h.ids
  serials := h.serials
  rowsBelow := h.rowsBelow
  heldBelow := h.heldBelow
  noticesBelow n hn := by
    rcases hn with hn | hn
    · rcases List.mem_cons.mp hn with heq | hn
      · exact (hcancelled n heq.symm).1
      · exact h.noticesBelow n (.inl hn)
    · rcases List.mem_cons.mp hn with heq | hn
      · exact (haccepted n heq.symm).1
      · exact h.noticesBelow n (.inr hn)
  heldIds := h.heldIds
  heldId := h.heldId
  waiting := h.waiting
  cancelled n hn := by
    rcases List.mem_cons.mp hn with heq | hn
    · exact (hcancelled n heq.symm).2
    · exact h.cancelled n hn
  accepted r hr hs hacc := by
    rcases List.mem_cons.mp hacc with heq | hacc
    · exact (haccepted _ heq.symm).2.2
    · exact h.accepted r hr hs hacc
  failed r hr hfailed hacc := by
    rcases List.mem_cons.mp hacc with heq | hacc
    · exact (haccepted _ heq.symm).2.1 r hr rfl hfailed
    · exact h.failed r hr hfailed hacc
  silent newer older n heq := by
    rcases newer with _ | ⟨first, newer⟩
    · obtain ⟨hnotice, rfl⟩ := List.cons.inj heq
      exact hsent n hnotice
    · exact h.silent newer older n (List.cons.inj heq).2

/-! ## Requests -/

theorem same_row (h : Told s) {r q : Row} (hr : r ∈ s.rows) (hq : q ∈ s.rows)
    (heq : r.serial = q.serial) : r = q :=
  List.inj_on_of_nodup_map h.serials hr hq heq

/-- A row that changes keeps its serial and its id. -/
theorem told_map {f : Row → Row} (h : Told s) (hserial : ∀ r, (f r).serial = r.serial)
    (hid : ∀ r, (f r).txId = r.txId) (hsched : ∀ r, (f r).status = .scheduled → r.status = .scheduled)
    (hfail : ∀ r ∈ s.rows, (f r).status = .failed → r.status = .failed ∨
      .accepted r.serial ∉ s.notices ∧ ∀ q ∈ toPost s.scheduler, q.serial ≠ r.serial) :
    Told { s with rows := s.rows.map f } := by
  refine told_rows h ?_ ?_ fun r' hr' => ?_
  · rw [List.map_map, show (fun r : Row => r.txId) ∘ f = fun r => r.txId from funext hid]
  · rw [List.map_map, show (fun r : Row => r.serial) ∘ f = fun r => r.serial from funext hserial]
  · obtain ⟨r, hr, rfl⟩ := List.mem_map.mp hr'
    exact ⟨r, hr, hserial r, hid r, hsched r, hfail r hr⟩

theorem told_insert {job : Job} {post : NewPost} {seen : List Row} (h : Told s)
    (hmay : Orderly job (.insertPost post seen) s) :
    Told (s.insertPost post) ∧ ∃ r ∈ (s.insertPost post).rows,
      r.txId = post.txId ∧ r.status = .scheduled ∧ r.notBefore = post.notBefore := by
  have hacked : Told { s with notices := .acked post.txId post.notBefore :: s.notices } :=
    told_notice h nofun nofun nofun
  unfold Server.insertPost
  dsimp only
  split
  · next hthere =>
    obtain ⟨r, hr, hid⟩ := List.any_eq_true.mp hthere
    have hid := of_decide_eq_true hid
    obtain ⟨hs, hb⟩ : r.status = .scheduled ∧ r.notBefore = post.notBefore := by
      cases job <;> exact hmay r hr hid
    exact ⟨hacked, r, hr, hid, hs, hb⟩
  · next hnew =>
    have hfresh (r : Row) (hr : r ∈ s.rows) : r.txId ≠ post.txId := fun heq =>
      hnew (List.any_eq_true.mpr ⟨r, hr, decide_eq_true heq⟩)
    let row : Row := ⟨post.txId, post.pubkey, post.notBefore, post.transactionJson,
      post.postContent, .scheduled, none, none, post.createdAt, s.inserted⟩
    have hcases {r : Row} (hr : r ∈ s.rows ++ [row]) : r ∈ s.rows ∨ r = row :=
      (List.mem_append.mp hr).imp_right List.mem_singleton.mp
    refine ⟨?_, row, List.mem_append_right _ (List.mem_singleton_self _), rfl, rfl, rfl⟩
    exact {
      ids := by
        rw [List.map_append, List.nodup_append]
        refine ⟨h.ids, List.nodup_singleton _, fun a ha b hb => ?_⟩
        obtain ⟨r, hr, rfl⟩ := List.mem_map.mp ha
        obtain rfl := List.mem_singleton.mp hb
        exact hfresh r hr
      serials := by
        rw [List.map_append, List.nodup_append]
        refine ⟨h.serials, List.nodup_singleton _, fun a ha b hb => ?_⟩
        obtain ⟨r, hr, rfl⟩ := List.mem_map.mp ha
        obtain rfl := List.mem_singleton.mp hb
        exact (h.rowsBelow r hr).ne
      rowsBelow := fun r hr => by
        rcases hcases hr with hr | rfl
        · exact (h.rowsBelow r hr).trans (Nat.lt_succ_self _)
        · exact Nat.lt_succ_self _
      heldBelow := fun q hq => (h.heldBelow q hq).trans (Nat.lt_succ_self _)
      noticesBelow := fun n hn => (hacked.noticesBelow n hn).trans (Nat.lt_succ_self _)
      heldIds := h.heldIds
      heldId := fun q hq r hr heq => by
        rcases hcases hr with hr | rfl
        · exact h.heldId q hq r hr heq
        · exact absurd heq.symm (h.heldBelow q hq).ne
      waiting := fun q hq r hr heq => by
        rcases hcases hr with hr | rfl
        · exact h.waiting q hq r hr heq
        · exact nofun
      cancelled := fun n hn => by
        refine ⟨fun r hr heq => ?_, (hacked.cancelled n hn).2⟩
        rcases hcases hr with hr | rfl
        · exact (hacked.cancelled n hn).1 r hr heq
        · exact absurd heq.symm (hacked.noticesBelow n (.inl hn)).ne
      accepted := fun r hr hs hacc => by
        rcases hcases hr with hr | rfl
        · exact hacked.accepted r hr hs hacc
        · exact absurd rfl (hacked.noticesBelow s.inserted (.inr hacc)).ne
      failed := fun r hr hfailed => by
        rcases hcases hr with hr | rfl
        · exact hacked.failed r hr hfailed
        · cases hfailed
      silent := hacked.silent }

theorem told_cancel {job : Job} {txId pubkey : Bytes} (h : Told s)
    (hmay : Orderly job (.cancelUpdate txId pubkey) s) : Told (s.cancelPost txId pubkey).2 := by
  have hfree : ∀ r ∈ s.rows, Server.cancellable txId pubkey r = true →
      ∀ q ∈ toPost s.scheduler, q.serial ≠ r.serial := by
    cases job <;> exact hmay
  unfold Server.cancelPost
  split
  · exact h
  · next row hfind =>
    dsimp only
    have hrow : row ∈ s.rows := List.mem_of_find?_eq_some hfind
    have hcan : Server.cancellable txId pubkey row = true := by simpa using List.find?_some hfind
    let cancel (r : Row) : Row :=
      if Server.cancellable txId pubkey r then { r with status := .cancelled } else r
    have hmapped : Told { s with rows := s.rows.map cancel } := by
      refine told_map h (fun r => ?_) (fun r => ?_) (fun r hr => ?_) fun r _ hr => ?_
      · show (ite _ _ _ : Row).serial = r.serial
        split <;> rfl
      · show (ite _ _ _ : Row).txId = r.txId
        split <;> rfl
      · change (ite _ _ _ : Row).status = .scheduled at hr
        split at hr
        · cases hr
        · exact hr
      · change (ite _ _ _ : Row).status = .failed at hr
        split at hr
        · cases hr
        · exact .inl hr
    refine told_notice hmapped (fun n hn => ?_) nofun nofun
    obtain rfl := Notice.cancelled.inj hn
    refine ⟨h.rowsBelow row hrow, fun r' hr' heq hs => ?_, hfree row hrow hcan⟩
    obtain ⟨r, hr, rfl⟩ := List.mem_map.mp hr'
    -- the row with the serial of the notice is the one that was cancelled
    by_cases hr' : Server.cancellable txId pubkey r = true
    · change (ite _ _ _ : Row).status = .scheduled at hs
      rw [if_pos hr'] at hs
      cases hs
    · change (ite _ _ _ : Row).serial = row.serial at heq
      rw [if_neg hr'] at heq
      exact hr' (same_row h hr hrow heq ▸ hcan)

/-! ## The tick -/

theorem turns_rows (before rows : List Row) : (turns before rows).map (·.2) = rows := by
  induction rows generalizing before with
  | nil => rfl
  | cons row rows ih => exact congrArg (row :: ·) (ih (row :: before))

/-- A batch is made of waiting rows, each once. -/
theorem dueRows_subperm (now : ℤ) (rows : List Row) :
    (dueRows now rows).Subperm (rows.filter fun r => r.status = .scheduled ∧ r.notBefore ≤ now) := by
  unfold dueRows
  dsimp only
  refine ((List.take_sublist _ _).map _).subperm.trans ?_
  refine ((List.perm_insertionSort _ _).map _).subperm.trans ?_
  rw [turns_rows]
  exact (List.perm_insertionSort _ _).subperm

theorem mem_dueRows {now : ℤ} {rows : List Row} {q : Row} (hq : q ∈ dueRows now rows) :
    q ∈ rows ∧ q.status = .scheduled := by
  obtain ⟨hmem, hdue⟩ := List.mem_filter.mp ((dueRows_subperm now rows).subset hq)
  exact ⟨hmem, (of_decide_eq_true hdue).1⟩

theorem dueRows_ids {now : ℤ} {rows : List Row} (h : (rows.map (·.txId)).Nodup) :
    ((dueRows now rows).map (·.txId)).Nodup := by
  obtain ⟨l, hperm, hsub⟩ := dueRows_subperm now rows
  have hl : (l.map (·.txId)).Nodup :=
    h.sublist ((hsub.trans List.filter_sublist).map _)
  exact (hperm.map _).nodup_iff.mp hl

/-- The batch is read. -/
theorem told_due {now now' : ℤ} (h : Told s) (hs : s.scheduler = .cleared now') :
    Told { s with scheduler := .posting (dueRows now s.rows) [] } where
  ids := h.ids
  serials := h.serials
  rowsBelow := h.rowsBelow
  heldBelow q hq := h.rowsBelow q (mem_dueRows hq).1
  noticesBelow := h.noticesBelow
  heldIds := dueRows_ids h.ids
  heldId q hq r hr heq := by rw [same_row h hr (mem_dueRows hq).1 heq]
  waiting q hq r hr heq := by
    rw [same_row h hr (mem_dueRows hq).1 heq, (mem_dueRows hq).2]
    exact nofun
  cancelled n hn := by
    obtain ⟨hwaits, -⟩ := h.cancelled n hn
    exact ⟨hwaits, fun q hq heq => hwaits q (mem_dueRows hq).1 heq (mem_dueRows hq).2⟩
  accepted r hr hsched hacc := by
    have hnone := h.accepted r hr hsched hacc
    rw [hs] at hnone
    cases hnone
  failed := h.failed
  silent := h.silent

/-- The scheduler goes on, with no answer to record. -/
theorem told_goes_on {c : Scheduler} (h : Told s) (hnone : recorded s.scheduler = none)
    (hheld : (held c).Sublist (held s.scheduler)) (hpost : ∀ q ∈ toPost c, q ∈ toPost s.scheduler) :
    Told { s with scheduler := c } := by
  refine told_scheduler h hheld hpost fun r hr hsched hacc => ?_
  have hsome := h.accepted r hr hsched hacc
  rw [hnone] at hsome
  cases hsome

/-- The transaction of a row to post is sent. -/
theorem told_sent {row : Row} (h : Told s) (hrow : row ∈ toPost s.scheduler) :
    Told { s with notices := .sent row.serial :: s.notices } := by
  refine told_notice h nofun nofun fun n hn hcancelled => ?_
  obtain rfl := Notice.sent.inj hn
  exact (h.cancelled _ hcancelled).2 row hrow rfl

theorem told_postNext {row : Row} {due : List Row} {coins : Coins} {input : Tick} (h : Told s)
    (hs : s.scheduler = .posting (row :: due) coins) (hrelay : input.relay ≠ .lost) :
    Told (s.postNext env input row due coins) := by
  have hnone : recorded s.scheduler = none := by rw [hs]; rfl
  have hrow : row ∈ toPost s.scheduler := by rw [hs]; exact List.mem_cons_self
  have hrest : ∀ q ∈ due, q ∈ toPost s.scheduler := by
    rw [hs]
    exact fun q => List.mem_cons_of_mem row
  have hall : held s.scheduler = row :: due := by rw [hs]; rfl
  have hfailing (t : Server) (ht : Told t) (hts : t.scheduler = s.scheduler) (error : Text) :
      Told { t with scheduler := .failing row error due coins } :=
    told_goes_on ht (hts ▸ hnone) (by rw [hts, hall]; exact List.Sublist.refl _) (hts ▸ hrest)
  have hsent := told_sent h hrow
  unfold Server.postNext
  split
  · exact hfailing s h rfl _
  · split
    · refine told_goes_on h hnone ?_ fun q hq => ?_
      · rw [hall]
        exact List.Sublist.refl _
      · rw [hs]
        exact hq
    · split
      · exact hfailing s h rfl _
      · dsimp only
        split
        · next hok =>
          rw [if_pos (show input.relay.accepts = true by rw [hok]; rfl)]
          have hrecording : Told { s with
              notices := .sent row.serial :: s.notices, scheduler := .recording row due coins } :=
            told_goes_on hsent hnone (by rw [hall]; exact List.Sublist.refl _) hrest
          refine told_notice hrecording nofun (fun n hn => ?_) nofun
          obtain rfl := Notice.accepted.inj hn
          exact ⟨h.heldBelow row (by rw [hall]; exact List.mem_cons_self), h.waiting row hrow, rfl⟩
        · next message hrejected =>
          rw [if_neg (show ¬ input.relay.accepts = true by rw [hrejected]; exact nofun)]
          exact hfailing _ hsent rfl _
        · next hlost => exact absurd hlost hrelay
        · next hunreachable =>
          rw [if_neg (show ¬ input.relay.accepts = true by rw [hunreachable]; exact nofun)]
          exact told_goes_on hsent hnone (by rw [hall]; exact List.sublist_cons_self _ _) hrest

/-- The relay's acceptance is recorded. -/
theorem told_recorded {row : Row} {due : List Row} {coins coins' : Coins} {now : ℤ} (h : Told s)
    (hs : s.scheduler = .recording row due coins) :
    Told { s with
      rows := s.rows.map (markSubmitted row.txId now), scheduler := .posting due coins' } := by
  have hmark (r : Row) : (markSubmitted row.txId now r).status = .scheduled →
      r.status = .scheduled ∧ r.txId ≠ row.txId := by
    unfold markSubmitted
    split
    · exact nofun
    · next hother => exact fun hr => ⟨hr, fun hid => hother ⟨hid, hr⟩⟩
  have hserial (r : Row) : (markSubmitted row.txId now r).serial = r.serial := by
    unfold markSubmitted
    split <;> rfl
  have hmapped : Told { s with rows := s.rows.map (markSubmitted row.txId now) } := by
    refine told_map h hserial (fun r => ?_) (fun r hr => (hmark r hr).1) fun r _ hr => ?_
    · unfold markSubmitted
      split <;> rfl
    · unfold markSubmitted at hr
      split at hr
      · cases hr
      · exact .inl hr
  refine told_scheduler hmapped ?_ ?_ fun r' hr' hsched hacc => ?_
  · show due.Sublist (held s.scheduler)
    rw [hs]
    exact List.sublist_cons_self _ _
  · show ∀ q ∈ due, q ∈ toPost s.scheduler
    rw [hs]
    exact fun _ => id
  · -- a row still waiting was accepted as the one just recorded, whose id it then has
    have hsome : recorded s.scheduler = some r'.serial := hmapped.accepted r' hr' hsched hacc
    rw [hs] at hsome
    obtain ⟨r, hr, rfl⟩ := List.mem_map.mp hr'
    rw [hserial] at hsome
    have hid := h.heldId row (by rw [hs]; exact List.mem_cons_self) r hr (Option.some.inj hsome).symm
    exact absurd hid (hmark r hsched).2

/-- A refusal is recorded. -/
theorem told_failed {row : Row} {due : List Row} {coins : Coins} {error : Text} (h : Told s)
    (hs : s.scheduler = .failing row error due coins) :
    Told { s with
      rows := s.rows.map (markFailed row.txId error), scheduler := .posting due coins } := by
  have hnone : recorded s.scheduler = none := by rw [hs]; rfl
  have hdue : toPost s.scheduler = due := by rw [hs]; rfl
  have hall : held s.scheduler = row :: due := by rw [hs]; rfl
  have hmapped : Told { s with rows := s.rows.map (markFailed row.txId error) } := by
    refine told_map h (fun r => ?_) (fun r => ?_) (fun r hr => ?_) fun r hr hfailed => ?_
    · unfold markFailed
      split <;> rfl
    · unfold markFailed
      split <;> rfl
    · unfold markFailed at hr
      split at hr
      · cases hr
      · exact hr
    · unfold markFailed at hfailed
      split at hfailed
      · next hmarked =>
        refine .inr ⟨fun hacc => ?_, fun q hq heq => ?_⟩
        · have hsome := h.accepted r hr hmarked.2 hacc
          rw [hnone] at hsome
          cases hsome
        · have hids := h.heldIds
          rw [hall, List.map_cons, List.nodup_cons] at hids
          have hid := h.heldId q (toPost_held _ q hq) r hr heq.symm
          rw [hdue] at hq
          exact hids.1 (List.mem_map.mpr ⟨q, hq, hid.symm.trans hmarked.1⟩)
      · exact .inl hfailed
  refine told_goes_on hmapped hnone ?_ ?_
  · show due.Sublist (held s.scheduler)
    rw [hall]
    exact List.sublist_cons_self _ _
  · show ∀ q ∈ due, q ∈ toPost s.scheduler
    rw [hdue]
    exact fun _ => id

theorem told_tick {input : Tick} (h : Told s) (hmay : Orderly (.tick input) .tick s) :
    Told (s.tick env input) := by
  unfold Server.tick
  split
  · next hs =>
    have hpruned : Told { s with rows := s.rows.filter fun r => ¬ prunable input.now r } := by
      refine told_rows h (List.filter_sublist.map _) (List.filter_sublist.map _) fun r hr => ?_
      exact ⟨r, List.mem_of_mem_filter hr, rfl, rfl, id, .inl⟩
    exact told_goes_on hpruned (by rw [hs]; rfl) (List.nil_sublist _) fun _ h =>
      absurd h List.not_mem_nil
  · next hs =>
    have hcleared : Told { s with rows := s.rows.map clearFinished } := by
      refine told_map h (fun r => ?_) (fun r => ?_) (fun r hr => ?_) fun r _ hr => ?_
      · unfold clearFinished
        split <;> rfl
      · unfold clearFinished
        split <;> rfl
      · unfold clearFinished at hr
        split at hr <;> exact hr
      · unfold clearFinished at hr
        split at hr <;> exact .inl hr
    exact told_goes_on hcleared (by rw [hs]; rfl) (List.nil_sublist _) fun _ h =>
      absurd h List.not_mem_nil
  · next hs => exact told_due h hs
  · next hs =>
    exact told_goes_on h (by rw [hs]; rfl) (List.nil_sublist _) fun _ h =>
      absurd h List.not_mem_nil
  · next hs => exact told_postNext h hs hmay
  · next hs => exact told_recorded h hs
  · next hs => exact told_failed h hs

end

/-! ## Every run -/

def contract : Contract Server Sql Job where
  rely s t := Told s → Told t
  inv := Told
  told _ _ _ := True
  refl _ := id
  trans _ _ _ h h' := h' ∘ h
  inv_rely _ _ h := h
  told_rely _ _ _ _ _ := id

theorem told_start : Told Server.start where
  ids := List.nodup_nil
  serials := List.nodup_nil
  rowsBelow _ h := absurd h List.not_mem_nil
  heldBelow _ h := absurd h List.not_mem_nil
  noticesBelow _ h := h.elim (absurd · List.not_mem_nil) (absurd · List.not_mem_nil)
  heldIds := List.nodup_nil
  heldId _ h := absurd h List.not_mem_nil
  waiting _ h := absurd h List.not_mem_nil
  cancelled _ h := absurd h List.not_mem_nil
  accepted _ h := absurd h List.not_mem_nil
  failed _ h := absurd h List.not_mem_nil
  silent newer _ _ h := absurd h.symm (by simp [Server.start])

/-- Every statement of a job keeps the invariant where it may run. -/
theorem told_runs {job : Job} {ev : Sql} {write : Server → Server} {s : Server}
    (hruns : Runs env job ev write) (hmay : Orderly job ev s) (h : Told s) : Told (write s) := by
  cases hruns with
  | read => exact h
  | insert hjob post waiting => exact (told_insert h hmay).1
  | cancel txId pubkey => exact told_cancel h hmay
  | tick hjob =>
    subst hjob
    exact told_tick h hmay

/-- No step of the scheduler answers a request. -/
theorem tick_notices (input : Tick) (s : Server) (txId : Bytes) (b : ℤ) :
    (s.tick env input).notices ≠ .acked txId b :: s.notices := by
  have hself : s.notices ≠ .acked txId b :: s.notices := (List.cons_ne_self _ _).symm
  unfold Server.tick
  split
  iterate 4 exact hself
  · unfold Server.postNext
    split
    · exact hself
    · split
      · exact hself
      · split
        · exact hself
        · dsimp only
          split <;> (dsimp only; split <;> exact fun h => nomatch (List.cons.inj h).1)
  iterate 2 exact hself

/-- The statement that answers a request leaves its row waiting for the time of the answer. -/
theorem acked_runs {job : Job} {ev : Sql} {write : Server → Server} {s : Server} {txId : Bytes}
    {b : ℤ} (hruns : Runs env job ev write) (hmay : Orderly job ev s) (h : Told s)
    (heq : (write s).notices = .acked txId b :: s.notices) :
    ∃ r ∈ (write s).rows, r.txId = txId ∧ r.status = .scheduled ∧ r.notBefore = b := by
  cases hruns with
  | read => exact absurd heq.symm (List.cons_ne_self _ _)
  | insert hjob post waiting =>
    obtain ⟨r, hr, hid, hs, hb⟩ := (told_insert h hmay).2
    have hnotices : (s.insertPost post).notices = .acked post.txId post.notBefore :: s.notices := by
      unfold Server.insertPost
      dsimp only
      split <;> rfl
    obtain ⟨hpost, hbefore⟩ := Notice.acked.inj (List.cons.inj (hnotices.symm.trans heq)).1
    exact ⟨r, hr, hid.trans hpost, hs, hb.trans hbefore⟩
  | cancel id pubkey =>
    dsimp only at heq
    unfold Server.cancelPost at heq
    split at heq
    · exact absurd heq.symm (List.cons_ne_self _ _)
    · exact nomatch (List.cons.inj heq).1
  | tick hjob => exact absurd heq (tick_notices _ s txId b)

theorem job_safe (job : Job) (s : Server) :
    contract.Safe (Orderly job) job (fun _ _ => True) (job.prog env) s :=
  .of_all (runs_job env job) (fun _ _ hruns _ _ hmay => ⟨told_runs hruns hmay, trivial⟩)
    fun _ _ => trivial

def scheduleJob (notBefore : ℤ) : Job := .schedule (firstRequest notBefore) 0 false sampleUnspent

def otherJob : Job := .schedule (otherCoinRequest 1000) 0 false sampleUnspent

def cancelJob (req : SchedulePostRequest) : Job := .cancel ⟨req.pubkey, req.txId, req.signature⟩

def tickJob (unspent : Option (List Outpoint)) (relay : Relay) : Job := .tick ⟨2000, unspent, relay⟩

/-- Each job is delivered and runs that many statements, before the next one. -/
def inTurn : ℕ → List (Job × ℕ) → List (Act Job)
  | _, [] => []
  | k, (job, n) :: rest => .deliver job :: List.replicate n (.exec k) ++ inTurn (k + 1) rest

/-- A request, and steps of the scheduler up to the answer of the relay. -/
def firstSent (relay : Relay) : List (Job × ℕ) :=
  (scheduleJob 1000, 3) :: List.replicate 5 (tickJob sampleUnspent relay, 1)

/-- The post is cancelled once the tick has read it, and sent. -/
def cancelledThenSent : List (Act Job) :=
  inTurn 0 ((firstSent .ok).take 4 ++ [(cancelJob (firstRequest 1000), 1)] ++ (firstSent .ok).drop 4)

/-- The answer is lost, and the next tick finds the coin spent. -/
def lostThenFailed : List (Act Job) :=
  inTurn 0 (firstSent .lost ++ List.replicate 7 (tickJob (some []) .ok, 1))

/-- The transaction is there already when it is to wait for another time. -/
def toBeAcked : List (Act Job) := inTurn 0 [(scheduleJob 1000, 3), (scheduleJob 5000, 2)]

/-- The post is sent and recorded, another one is cancelled while it waits. -/
def sentAndCancelled : List (Act Job) :=
  inTurn 0 ((otherJob, 3) :: (cancelJob (otherCoinRequest 1000), 1) :: firstSent .ok ++
    [(tickJob sampleUnspent .ok, 1)])

/-- Following a schedule from the start, with nothing to hold a statement back. -/
def follow (acts : List (Act Job)) : Option (World Server Sql Job) :=
  run (Job.prog sampleEnv) (fun _ _ _ => true) acts (.start Server.start)

theorem follow_reaches {acts : List (Act Job)} {w : World Server Sql Job}
    (h : follow acts = some w) :
    (server sampleEnv (fun _ => True) fun _ _ _ => True).Reaches Server.start w :=
  .run .start (fun _ _ => trivial) (fun _ _ _ _ => trivial) h

/-- The row answered last waits for another time than the answer says. -/
def ackedInVain (w w' : World Server Sql Job) : Bool :=
  match w'.state.notices with
  | .acked txId b :: notices => notices = w.state.notices ∧
      ∀ r ∈ w'.state.rows, ¬ (r.txId = txId ∧ r.status = .scheduled ∧ r.notBefore = b)
  | _ => false

theorem sample_runs :
    ((follow cancelledThenSent).map fun w =>
      decide (w.state.notices.take 3 = [.accepted 0, .sent 0, .cancelled 0])) = some true ∧
    ((follow lostThenFailed).map fun w => w.state.rows.any fun r =>
      r.status = .failed ∧ .accepted r.serial ∈ w.state.notices) = some true ∧
    ((follow toBeAcked).bind fun w => (w.exec 1).map (ackedInVain w)) = some true ∧
    ((run (Job.prog sampleEnv) (fun job ev s => decide (Orderly job ev s)) sentAndCancelled
      (.start Server.start)).map fun w =>
        decide (w.state.rows.map (·.status) = [.cancelled, .submitted])) = some true := by
  decide +kernel

end KaChatIndexer.ScheduledStatus
