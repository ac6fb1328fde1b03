import KaChatIndexer.ChainHandshake

/-!
# Runs of the chain processor

Over every interleaving of blocks, notifications, answers and words: no assertion of the processor
fails, the changes are written one onto the other, also across restarts, and the changes of the
moment in the order in which they came.
-/
namespace KaChatIndexer.ChainRuns
open ByteStrings ChatRows ChainSync ChainHandshake Fallible
open ChatBlocks (ChainChange)

/-! ## What is asked of the node -/

instance (c : ChainChange) : Decidable (Sound c) :=
  decidable_of_iff ((c.added = [] → c.removed = []) ∧ ∀ block ∈ c.accepted, block.1 ∈ c.added)
    ⟨fun h => ⟨h.1, h.2⟩, fun h => ⟨h.adds, h.accepts⟩⟩

/-- Changes are sound, answers follow the block that was asked for, and nothing is notified before
a connection. -/
def keeps (follows : Hash → ChainChange → Bool) (done : List Event) (s : System) : Event → Bool
  | .answer id c => decide (Sound c) &&
    (get s.syncers id).all fun y => y.phase ≠ .asking || follows y.vcFrom c
  | .vcc (.notification c) => decide (Sound c) && done.any isConnected
  | _ => true

def ppOf : Event → Option Hash
  | .vcc (.connected _ _ pp) => some pp
  | _ => none

/-- The first pruning point that the node tells. -/
def firstPp (events : List Event) : Option Hash := events.findSome? ppOf

theorem isSome_ppOf (e : Event) : (ppOf e).isSome = isConnected e := by
  cases e with
  | vcc n => cases n <;> rfl
  | block | syncer | answer | refuse | ack => rfl

theorem firstPp_of_none {done : List Event} (hnone : ∀ e ∈ done, isConnected e = false)
    (sink : Hash) (sinkBlueWork : ℕ) (pp : Hash) (rest : List Event) :
    firstPp (done ++ .vcc (.connected sink sinkBlueWork pp) :: rest) = some pp := by
  have hdone : done.findSome? ppOf = none := by
    refine List.findSome?_eq_none_iff.mpr fun e he => ?_
    have hnot := hnone e he
    rwa [← isSome_ppOf, Option.isSome_eq_false_iff, Option.isNone_iff_eq_none] at hnot
  rw [firstPp, List.findSome?_append, hdone]
  rfl

theorem exists_firstPp {events : List Event} (h : ∃ e ∈ events, isConnected e = true) :
    ∃ pp, firstPp events = some pp := by
  refine Option.isSome_iff_exists.mp (List.isSome_findSome?.trans ?_)
  simpa [isSome_ppOf] using h

/-- The block after which a run follows the chain. -/
def startOf (cursor : Option Cursor) (events : List Event) : Hash :=
  resumePoint cursor ((firstPp events).getD ChatBlocks.zeroHash)

/-! ## One step -/

section
variable {follows : Hash → ChainChange → Bool} {cursor : Option Cursor} {base : Hash}
  {done : List Event} {s : System}

theorem agrees_step (syncedCapacity : ℕ)
    (h : Agrees (follows · · = true) cursor base done s) {e : Event}
    (hkeeps : keeps follows done s e = true)
    (hbase : ∀ sink sinkBlueWork pp, e = .vcc (.connected sink sinkBlueWork pp) →
      (∀ e' ∈ done, isConnected e' = false) → base = resumePoint cursor pp) :
    Ends (Excused (done ++ [e]))
      (Agrees (follows · · = true) cursor base (done ++ [e]))
      (step syncedCapacity e s) := by
  have hskip (hfinished : s.processor.finished = true) :
      Agrees (follows · · = true) cursor base (done ++ [e]) s :=
    h.same fun hrunning => absurd (hfinished.symm.trans hrunning) (by simp)
  cases e with
  | vcc n =>
    unfold step
    dsimp only
    split
    · next hfinished => exact hskip hfinished
    · next hfinished =>
      have hrunning : s.processor.finished = false := by simpa using hfinished
      cases n with
      | connected sink sinkBlueWork pp =>
        exact agrees_connect h hrunning fun hinitial =>
          hbase sink sinkBlueWork pp rfl ((h.initial hinitial).2.2.2 hrunning)
      | disconnected => exact agrees_queue (h.same fun _ htrue => by cases htrue) (by simp)
      | shutdown => exact agrees_shutdown h
      | notification c =>
        obtain ⟨hsound, hconnected⟩ := Bool.and_eq_true_iff.mp hkeeps
        obtain ⟨e, hmem, he⟩ := List.any_eq_true.mp hconnected
        exact agrees_notification (h.same fun _ htrue => by cases htrue) (of_decide_eq_true hsound)
          ⟨e, List.mem_append_left _ hmem, he⟩ hrunning
  | block header =>
    unfold step
    dsimp only
    split
    · next hfinished => exact hskip hfinished
    · exact agrees_block (h.same fun _ htrue => by cases htrue) syncedCapacity header
  | syncer =>
    have hsame := h.same (e := .syncer) fun _ htrue => by cases htrue
    unfold step
    dsimp only
    split
    · exact hsame
    · unfold handleSyncer
      split
      · exact hsame
      · next hqueue => exact agrees_syncerVc hsame hqueue
      · next hqueue => exact agrees_stopped hsame hqueue
  | answer id c =>
    obtain ⟨hsound, hfollows⟩ := Bool.and_eq_true_iff.mp hkeeps
    refine agrees_answer h (of_decide_eq_true hsound) fun y hget hphase => ?_
    rw [hget] at hfollows
    simpa [hphase] using hfollows
  | refuse id pruned => exact agrees_refuse h
  | ack id => exact agrees_ack h

theorem excused_mono {done rest : List Event} {f : Fault} (h : Excused done f) :
    Excused (done ++ rest) f := by
  rcases h with ⟨hf, hshut⟩ | ⟨hf, id, pruned, hmem⟩
  · exact .inl ⟨hf, List.mem_append_left _ hshut⟩
  · exact .inr ⟨hf, id, pruned, List.mem_append_left _ hmem⟩

end

/-! ## Runs -/

section
variable {follows : Hash → ChainChange → Bool} {syncedCapacity : ℕ} {events : List Event}
  {blocks : Partition Hash (ℕ × ℕ)} {cursor : Option Cursor}

theorem run_agrees (hkeeps : allSteps (step syncedCapacity) (keeps follows) [] events
      (start blocks cursor) = true) :
    Ends (Excused events)
      (Agrees (follows · · = true) cursor (startOf cursor events) events)
      (run syncedCapacity events (start blocks cursor)) := by
  have hends : Ends (Excused events) (fun s => run syncedCapacity events (start blocks cursor) = .ok s ∧
      Agrees (follows · · = true) cursor (startOf cursor events) events s)
      (run syncedCapacity events (start blocks cursor)) := by
    refine ends_steps (fun done s => run syncedCapacity done (start blocks cursor) = .ok s ∧
      Agrees (follows · · = true) cursor (startOf cursor events) done s) ?_
      ⟨rfl, start_agrees _ _ _ _⟩
    intro done e rest hevents s hs
    obtain ⟨hreached, hagrees⟩ := hs
    have hstep := agrees_step syncedCapacity hagrees (of_allSteps hkeeps hevents hreached)
      fun sink sinkBlueWork pp he hnone => by
        rw [startOf, hevents, he, firstPp_of_none hnone]
        rfl
    have hrun (s' : System) (hs' : step syncedCapacity e s = .ok s') :
        run syncedCapacity (done ++ [e]) (start blocks cursor) = .ok s' := by
      unfold run at hreached ⊢
      rw [foldSteps_append, hreached, Except.bind, foldSteps, hs']
      rfl
    refine ((ends_of_ok hrun).and hstep).imp (fun f hf => ?_) fun s' hs' => hs'
    rw [hevents, List.append_cons]
    exact excused_mono hf.2
  exact hends.imp (fun f hf => hf) fun s hs => hs.2

/-- Processor and syncers between two events. -/
structure InTurn (events : List Event) (s : System) : Prop where
  current : ∀ last id target stash, s.processor.syncState = .syncing last id target stash →
    s.processor.shuttingDown = false → ∃ y, get s.syncers id = some y ∧
      Turn (fun _ _ => True) (Refusal events) last.1 y (answersIn s.syncerQueue) stash
  closing : ∀ last id target stash, s.processor.syncState = .syncing last id target stash →
    s.processor.shuttingDown = true →
      ∃ y, get s.syncers id = some y ∧ Closing y (answersIn s.syncerQueue) stash
  others : ∀ id y, get s.syncers id = some y →
    (∃ last target stash, s.processor.syncState = .syncing last id target stash) ∨ Released y
  answers : ∀ id c, .virtualChain id c ∈ s.syncerQueue →
    ∃ last target stash, s.processor.syncState = .syncing last id target stash

end

/-! A run that meets the target in two answers, while a change of the moment waits. -/

def sampleHash (n : UInt8) : Hash := List.replicate 32 n

def sampleFollows (base : Hash) (c : ChainChange) : Bool := c.added.head? = some (base.map (· + 1))

def sampleChange (added : List UInt8) : ChainChange := ⟨[], added.map sampleHash, []⟩

def sampleBlock (n : UInt8) : Event := .block ⟨sampleHash n, n.toNat, n.toNat⟩

def sampleEvents : List Event :=
  [.vcc (.connected (sampleHash 3) 3 (sampleHash 0)), sampleBlock 1, sampleBlock 2,
    .answer 0 (sampleChange [1, 2]), .syncer, .ack 0, .vcc (.notification (sampleChange [4])),
    .answer 0 (sampleChange [3]), .syncer, sampleBlock 3, sampleBlock 4, .ack 0, .syncer]

structure Life where
  processedBlocks : Partition Hash (ℕ × ℕ)
  events : List Event

/-- What stays from one process to the next. -/
structure Disk where
  cursor : Option Cursor
  written : List WrittenChange

/-- A process starts from the cursor, and ends after its events. -/
def live (syncedCapacity : ℕ) (life : Life) (d : Disk) : Except Fault Disk :=
  (run syncedCapacity life.events (start life.processedBlocks d.cursor)).map fun s =>
    ⟨s.processor.latestAcceptingBlockCursor, d.written ++ s.processor.written⟩

def keepsLife (follows : Hash → ChainChange → Bool) (syncedCapacity : ℕ) (_ : List Life) (d : Disk)
    (life : Life) : Bool :=
  allSteps (step syncedCapacity) (keeps follows) [] life.events (start life.processedBlocks d.cursor)

/-- The block at which the changes begin. -/
def Origin (cursor : Option Cursor) (lives : List Life) (base : Hash) : Prop :=
  ∃ life ∈ lives, ∃ pp, firstPp life.events = some pp ∧ base = resumePoint cursor pp

/-- Nothing is written yet, or the changes are linked up to the cursor. -/
def Continuous (follows : Hash → ChainChange → Prop) (cursor : Option Cursor) (lives : List Life)
    (d : Disk) : Prop :=
  d.written = [] ∧ d.cursor.map (·.blockHash) = cursor.map (·.blockHash) ∨
    ∃ base, Origin cursor lives base ∧ Linked follows base d.written ∧
      d.cursor.map (·.blockHash) = some (endOf base d.written)

theorem endOf_append_list (base : Hash) (written more : List WrittenChange) :
    endOf base (written ++ more) = endOf (endOf base written) more := List.foldl_append

theorem resumePoint_eq (cursor : Option Cursor) (pp : Hash) :
    resumePoint cursor pp = (cursor.map (·.blockHash)).getD pp := by
  cases cursor <;> rfl

theorem continuous_live {follows : Hash → ChainChange → Bool} {syncedCapacity : ℕ}
    {cursor : Option Cursor} {done : List Life} {d d' : Disk}
    (h : Continuous (follows · · = true) cursor done d) {life : Life}
    (hkeeps : keepsLife follows syncedCapacity done d life = true) (hnone : ¬Refusal life.events)
    (hlive : live syncedCapacity life d = .ok d') :
    Continuous (follows · · = true) cursor (done ++ [life]) d' := by
  obtain ⟨s, hs, rfl⟩ := map_ok hlive
  have hmono {base : Hash} (horigin : Origin cursor done base) : Origin cursor (done ++ [life]) base := by
    obtain ⟨l, hl, hpp⟩ := horigin
    exact ⟨l, List.mem_append_left _ hl, hpp⟩
  have hagrees := (run_agrees hkeeps).of_ok hs
  have hcursor := hagrees.wrote.cursor hnone
  by_cases hwritten : s.processor.written = []
  · rw [hwritten] at hcursor
    rcases h with ⟨hnothing, hd⟩ | ⟨base, horigin, hlinked, hd⟩
    · exact .inl ⟨by simp [hwritten, hnothing], hcursor.trans hd⟩
    · refine .inr ⟨base, hmono horigin, ?_⟩
      simp only [hwritten, List.append_nil]
      exact ⟨hlinked, hcursor.trans hd⟩
  · obtain ⟨pp, hpp⟩ := exists_firstPp (hagrees.connected fun hinitial =>
      hwritten (hagrees.initial hinitial).2.1)
    have hstored : stored d.cursor (startOf d.cursor life.events) s.processor.written =
        some (endOf (startOf d.cursor life.events) s.processor.written) := by
      obtain ⟨w, ws, heq⟩ := List.exists_cons_of_ne_nil hwritten
      rw [heq]
      rfl
    have hstart : startOf d.cursor life.events = resumePoint d.cursor pp := by
      rw [startOf, hpp]
      rfl
    have hlinked := hagrees.wrote.linked
    have hends := hcursor.trans hstored
    rw [hstart] at hlinked hends
    refine .inr ?_
    rcases h with ⟨hnothing, hd⟩ | ⟨base, horigin, hbefore, hd⟩
    · refine ⟨resumePoint d.cursor pp, ⟨life, by simp, pp, hpp, ?_⟩, ?_⟩
      · rw [resumePoint_eq, hd, resumePoint_eq]
      rw [hnothing, List.nil_append]
      exact ⟨hlinked, hends⟩
    · rw [resumePoint_eq, hd, Option.getD_some] at hlinked hends
      refine ⟨base, hmono horigin, linked_append.mpr ⟨hbefore, hlinked⟩, ?_⟩
      rw [endOf_append_list]
      exact hends

def sampleLives : List Life :=
  [⟨[], sampleEvents⟩, ⟨[], [.vcc (.connected (sampleHash 5) 5 (sampleHash 0)), sampleBlock 5,
    .answer 0 (sampleChange [5]), .syncer]⟩]

def moves (c : ChainChange) : Bool := ¬(c.removed = [] ∧ c.added = [])

def realtimeOf (written : List WrittenChange) : List ChainChange :=
  (written.filter (·.source = .realtime)).map (·.change)

/-- The changes of the moment that are written and those that wait. -/
def taken (p : VirtualProcessor) : List ChainChange :=
  realtimeOf p.written ++ p.realtimeQueueVcc.filter moves

def notified : Event → Option ChainChange
  | .vcc (.notification c) => some c
  | _ => none

/-- What an event adds to the changes of the moment. -/
def takes (s : System) (e : Event) : List ChainChange :=
  if s.processor.finished then [] else (notified e).toList.filter moves

/-- The processor takes `more`, and does not start again. -/
structure Takes (more : List ChainChange) (p p' : VirtualProcessor) : Prop where
  taken : taken p' = taken p ++ more
  running : p'.finished = false → p.finished = false

theorem takes_none {p p' : VirtualProcessor} (hwritten : p'.written = p.written)
    (hqueue : p'.realtimeQueueVcc = p.realtimeQueueVcc)
    (hfinished : p'.finished = false → p.finished = false) : Takes [] p p' := ⟨by simp [taken, hwritten, hqueue], hfinished⟩

theorem takes_refl (p : VirtualProcessor) : Takes [] p p := takes_none rfl rfl fun h => h

theorem takeAck_processor {id : ℕ} {s s' : System} (h : takeAck id s = .ok s') :
    s'.processor = s.processor := by
  unfold takeAck at h
  grind

theorem sendAck_processor {id : ℕ} {ack : NotificationAck} {s s' : System}
    (h : sendAck id ack s = .ok s') : s'.processor = s.processor := by
  obtain ⟨s₁, hs₁, h⟩ := bind_ok h
  have htaken := @takeAck_processor id s s₁
  grind

theorem handleVcc_written {source : Source} {base : Hash} {c : ChainChange} {p : VirtualProcessor}
    {r : VirtualProcessor × (Hash × ℕ)} (h : handleVcc source base c p = .ok r) :
    realtimeOf r.1.written = realtimeOf p.written ++ (if source = .realtime then [c] else []) ∧
      r.1.realtimeQueueVcc = p.realtimeQueueVcc ∧ r.1.finished = p.finished := by
  have hone : realtimeOf (p.written ++ [⟨source, base, c⟩]) =
      realtimeOf p.written ++ (if source = .realtime then [c] else []) := by
    cases source <;> simp [realtimeOf]
  unfold handleVcc at h
  grind

theorem takes_handleAnswer {last : Hash × ℕ} {id : ℕ} {target : Hash × ℕ} {queue : Option ChainChange}
    {c : ChainChange} {s s' : System} (h : handleAnswer last id target queue c s = .ok s') :
    Takes [] s.processor s'.processor := by
  have hwritten {p p' : VirtualProcessor} {r : VirtualProcessor × (Hash × ℕ)}
      (hr : handleVcc .syncer last.1 c p = .ok r) (hp' : realtimeOf p'.written = realtimeOf r.1.written ∧
        p'.realtimeQueueVcc = r.1.realtimeQueueVcc ∧ p'.finished = r.1.finished) : Takes [] p p' := by
    obtain ⟨hreal, hqueue, hfinished⟩ := handleVcc_written hr
    refine ⟨?_, fun hrunning => by rwa [hp'.2.2, hfinished] at hrunning⟩
    rw [taken, taken, hp'.1, hp'.2.1, hreal, hqueue]
    simp
  obtain ⟨reached, -, h⟩ := bind_ok h
  split at h
  · obtain ⟨s₁, hsend, h⟩ := bind_ok h
    obtain ⟨r, hr, rfl⟩ := map_ok h
    rw [sendAck_processor hsend] at hr
    exact hwritten hr ⟨rfl, rfl, rfl⟩
  · obtain ⟨r, hr, h⟩ := bind_ok h
    rw [sendAck_processor h]
    exact hwritten hr ⟨rfl, rfl, rfl⟩

theorem taken_drain {id : ℕ} (queue : List ChainChange) : ∀ (last : Hash × ℕ) (p p' : VirtualProcessor),
    drain id last p queue = .ok p' →
      taken p' = realtimeOf p.written ++ queue.filter moves ∧ p'.finished = p.finished := by
  induction queue with
  | nil =>
    intro last p p' h
    cases h
    exact ⟨rfl, rfl⟩
  | cons c queue ih =>
    intro last p p' h
    unfold drain at h
    split at h
    · next hstays => simpa [moves, hstays] using ih last p p' h
    · next hmoves =>
      split at h
      · cases h
        exact ⟨rfl, rfl⟩
      · obtain ⟨r, hr, h⟩ := bind_ok h
        obtain ⟨hreal, -, hfinished⟩ := handleVcc_written hr
        obtain ⟨htaken, hsame⟩ := ih _ _ _ h
        refine ⟨?_, hsame.trans hfinished⟩
        have hmove : moves c = true := decide_eq_true hmoves
        rw [htaken, hreal, List.filter_cons_of_pos hmove]
        simp

theorem takes_block {syncedCapacity : ℕ} {header : CompactHeader} {s s' : System}
    (h : handleProcessedBlock syncedCapacity header s = .ok s') : Takes [] s.processor s'.processor := by
  unfold handleProcessedBlock at h
  dsimp only at h
  split at h
  · cases h
    exact takes_none rfl rfl fun hrunning => hrunning
  · obtain ⟨p', hp', rfl⟩ := map_ok h
    obtain ⟨htaken, hfinished⟩ := taken_drain _ _ _ _ hp'
    exact ⟨htaken.trans (by simp [taken]), fun hrunning => hfinished ▸ hrunning⟩
  · split at h
    · cases h
      exact takes_none rfl rfl fun hrunning => hrunning
    · split at h
      · cases h
        exact takes_none rfl rfl fun hrunning => hrunning
      · have hanswer := takes_handleAnswer h
        exact ⟨hanswer.taken, hanswer.running⟩

theorem takes_syncer {s s' : System} (h : handleSyncer s = .ok s') : Takes [] s.processor s'.processor := by
  unfold handleSyncer handleSyncerVc handleSyncerStopped at h
  grind [takes_none, → takes_handleAnswer, → sendAck_processor]

theorem takes_notification {c : ChainChange} {s s' : System} (h : handleRealtimeVcc c s = .ok s') :
    Takes ([c].filter moves) s.processor s'.processor := by
  have hqueued (st : System) (heq : st.processor = { s.processor with
      realtimeQueueVcc := s.processor.realtimeQueueVcc ++ [c] }) :
      Takes ([c].filter moves) s.processor st.processor := by
    rw [heq]
    exact ⟨by simp [taken], fun hrunning => hrunning⟩
  unfold handleRealtimeVcc at h
  split at h
  · cases h
  · split at h
    · next hstays =>
      cases h
      exact ⟨by simp [taken, moves, hstays], fun hrunning => hrunning⟩
    · next hmoves =>
      split at h
      · cases h
        exact hqueued _ rfl
      · next hready =>
        obtain ⟨r, hr, rfl⟩ := map_ok h
        obtain ⟨hreal, hqueue, hfinished⟩ := handleVcc_written hr
        have hnone : s.processor.realtimeQueueVcc = [] := not_not.mp (not_or.mp hready).1
        refine ⟨?_, fun hrunning => hfinished ▸ hrunning⟩
        have hmove : moves c = true := decide_eq_true hmoves
        rw [List.filter_cons_of_pos hmove]
        simp [taken, hreal, hqueue, hnone]
  · cases h
    exact hqueued _ rfl

theorem takes_step {syncedCapacity : ℕ} {e : Event} {s s' : System}
    (h : step syncedCapacity e s = .ok s') (hkept : e ≠ .vcc .disconnected) :
    Takes (takes s e) s.processor s'.processor := by
  have hnone (hnot : notified e = none) : takes s e = [] := by simp [takes, hnot]
  have hsame (hfinished : s.processor.finished = true) : Takes (takes s e) s.processor s.processor := by
    simpa [takes, hfinished] using takes_refl _
  cases e with
  | vcc n =>
    unfold step at h
    dsimp only at h
    split at h
    · next hfinished =>
      cases h
      exact hsame hfinished
    · next hrunning =>
      cases n with
      | connected sink sinkBlueWork pp =>
        have hconnect : handleConnect sink sinkBlueWork pp s = s' := Except.ok.inj h
        rw [hnone rfl]
        unfold handleConnect spawnSyncer at hconnect
        grind [takes_none]
      | disconnected => exact absurd rfl hkept
      | shutdown =>
        replace h : handleShutdown s = .ok s' := h
        rw [hnone rfl]
        unfold handleShutdown at h
        dsimp only at h
        grind [takes_none, → sendAck_processor]
      | notification c => simpa [takes, hrunning, notified] using takes_notification h
  | block header =>
    unfold step at h
    dsimp only at h
    split at h
    · next hfinished =>
      cases h
      exact hsame hfinished
    · exact hnone rfl ▸ takes_block h
  | syncer =>
    unfold step at h
    dsimp only at h
    split at h
    · next hfinished =>
      cases h
      exact hsame hfinished
    · exact hnone rfl ▸ takes_syncer h
  | answer id c =>
    have hanswer : answer id c s = s' := Except.ok.inj h
    rw [hnone rfl]
    unfold answer at hanswer
    grind [takes_none]
  | refuse id pruned =>
    have hrefuse : refuse id pruned s = s' := Except.ok.inj h
    rw [hnone rfl]
    unfold refuse at hrefuse
    grind [takes_none]
  | ack id =>
    rw [hnone rfl, takeAck_processor h]
    exact takes_refl _

/-- A disconnection drops the changes that wait. -/
theorem takes_disconnected {syncedCapacity : ℕ} {s s' : System}
    (h : step syncedCapacity (.vcc .disconnected) s = .ok s') :
    (taken s'.processor).Sublist (taken s.processor) := by
  unfold step at h
  dsimp only at h
  split at h
  · cases h
    exact List.Sublist.refl _
  · cases h
    simp [taken]

/-- The changes of the moment are written in the order in which they came, and each at most once;
without a disconnection none is left out. -/
theorem realtime_in_order (syncedCapacity : ℕ) (events : List Event) (blocks : Partition Hash (ℕ × ℕ))
    (cursor : Option Cursor) {s : System}
    (hrun : run syncedCapacity events (start blocks cursor) = .ok s) :
    (taken s.processor).Sublist ((events.filterMap notified).filter moves) ∧
      (.vcc .disconnected ∉ events → s.processor.finished = false →
        taken s.processor = (events.filterMap notified).filter moves) := by
  refine steps_inv (fun done s => (taken s.processor).Sublist ((done.filterMap notified).filter moves) ∧
    (.vcc .disconnected ∉ done → s.processor.finished = false →
      taken s.processor = (done.filterMap notified).filter moves)) ?_
    (by simp [start, taken, realtimeOf]) hrun
  intro done e rest hevents s s' hreached h hstep
  have hnotified : ((done ++ [e]).filterMap notified).filter moves =
      (done.filterMap notified).filter moves ++ (notified e).toList.filter moves := by
    rw [List.filterMap_append, List.filter_append]
    cases hn : notified e <;> simp [hn]
  rw [hnotified]
  by_cases hlost : e = .vcc .disconnected
  · subst hlost
    refine ⟨?_, fun hnone => absurd (by simp) hnone⟩
    exact ((takes_disconnected hstep).trans h.1).trans (List.sublist_append_left _ _)
  · have htakes := takes_step hstep hlost
    rw [htakes.taken]
    refine ⟨h.1.append ?_, fun hnone hrunning => ?_⟩
    · unfold takes
      split
      · exact List.nil_sublist _
      · exact List.Sublist.refl _
    · have hbefore := htakes.running hrunning
      rw [h.2 (fun hmem => hnone (List.mem_append_left _ hmem)) hbefore, takes, hbefore]
      rfl

theorem sample_in_order : ∃ s, run 100 sampleEvents (start [] none) = .ok s ∧
    (taken s.processor).length = 1 ∧
    (taken s.processor).Sublist ((sampleEvents.filterMap notified).filter moves) ∧
      (.vcc .disconnected ∉ sampleEvents → s.processor.finished = false →
        taken s.processor = (sampleEvents.filterMap notified).filter moves) := by
  have htest : okAnd (run 100 sampleEvents (start [] none))
      (fun s => (taken s.processor).length = 1) = true := by
    decide +kernel
  obtain ⟨s, hs, hlength⟩ := exists_of_okAnd htest
  exact ⟨s, hs, of_decide_eq_true hlength, realtime_in_order 100 sampleEvents [] none hs⟩

end KaChatIndexer.ChainRuns
