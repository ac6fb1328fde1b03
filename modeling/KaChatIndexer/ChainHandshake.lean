import KaChatIndexer.ChainSync
import KaChatIndexer.ChatSlots

/-!
# The word between processor and syncer

At any time one party of the two has the turn: the syncer asks, its answer is on the way or waits
for blocks, or the word to go on is on the way back. From this no assertion of the processor fails,
and what a syncer brings is written onto the very block from which it was asked.
-/
namespace KaChatIndexer.ChainHandshake
open ByteStrings ChatRows ChatSlots ChainSync Fallible
open ChatBlocks (ChainChange)

/-! ## Answers -/

/-- A change that removes blocks adds some, and accepts in what it adds. -/
structure Sound (c : ChainChange) : Prop where
  adds : c.added = [] → c.removed = []
  accepts : ∀ block ∈ c.accepted, block.1 ∈ c.added

/-- The block at which a change ends. -/
def lastOf (base : Hash) (c : ChainChange) : Hash := c.added.getLast?.getD base

def answersIn (queue : List SyncVccNotification) : List ChainChange :=
  queue.filterMap fun
    | .virtualChain _ c => some c
    | .stopped _ => none

theorem answersIn_append (queue : List SyncVccNotification) (m : SyncVccNotification) :
    answersIn (queue ++ [m]) = answersIn queue ++ answersIn [m] := List.filterMap_append

/-! ## Turns -/

/-- A syncer that the processor has let go. -/
def Released (y : VirtualChainSyncer) : Prop :=
  y.phase = .waiting ∧ y.ack = some .stop ∨ y.phase = .stopped ∧ y.ack = none

/-- The syncer was told to stop, and at most one answer of it is left. -/
structure Closing (y : VirtualChainSyncer) (answers : List ChainChange) (stash : Option ChainChange) :
    Prop where
  told : y.phase ≠ .stopped ∧ y.ack = some .stop ∨ y.phase = .stopped ∧ y.ack = none
  single : answers.length + stash.toList.length ≤ 1
  asking : y.phase = .asking → answers = [] ∧ stash = none

/-- Whose turn it is, when the last accepting block is `last`. -/
inductive Turn (follows : Hash → ChainChange → Prop) (refusal : Prop) (last : Hash)
    (y : VirtualChainSyncer) : List ChainChange → Option ChainChange → Prop
  | asked (hphase : y.phase = .asking) (hack : y.ack = none) (hfrom : y.vcFrom = last) :
      Turn follows refusal last y [] none
  | answered {c : ChainChange} (hphase : y.phase = .waiting) (hack : y.ack = none)
      (hfrom : y.vcFrom = lastOf last c) (hfollows : follows last c) : Turn follows refusal last y [c] none
  | stashed {c : ChainChange} (hphase : y.phase = .waiting) (hack : y.ack = none)
      (hfrom : y.vcFrom = lastOf last c) (hfollows : follows last c) :
      Turn follows refusal last y [] (some c)
  | told (hphase : y.phase = .waiting) (hack : y.ack = some .proceed) (hfrom : y.vcFrom = last) :
      Turn follows refusal last y [] none
  | refused (hphase : y.phase = .stopped) (hack : y.ack = none) (hrefusal : refusal) :
      Turn follows refusal last y [] none

section
variable {follows : Hash → ChainChange → Prop} {refusal refusal' : Prop} {last : Hash}
  {y : VirtualChainSyncer} {answers : List ChainChange} {stash : Option ChainChange}

theorem Turn.mono (h : Turn follows refusal last y answers stash) (himp : refusal → refusal') :
    Turn follows refusal' last y answers stash := by
  cases h with
  | asked hphase hack hfrom => exact .asked hphase hack hfrom
  | answered hphase hack hfrom hfollows => exact .answered hphase hack hfrom hfollows
  | stashed hphase hack hfrom hfollows => exact .stashed hphase hack hfrom hfollows
  | told hphase hack hfrom => exact .told hphase hack hfrom
  | refused hphase hack hrefusal => exact .refused hphase hack (himp hrefusal)

theorem Turn.single (h : Turn follows refusal last y answers stash) :
    answers.length + stash.toList.length ≤ 1 := by
  cases h <;> simp

theorem Turn.of_asking (h : Turn follows refusal last y answers stash) (hphase : y.phase = .asking) :
    y.ack = none ∧ y.vcFrom = last ∧ answers = [] ∧ stash = none := by
  cases h with
  | asked _ hack hfrom => exact ⟨hack, hfrom, rfl, rfl⟩
  | answered hother | stashed hother | told hother | refused hother => cases hphase.symm.trans hother

end

/-! ## Sending -/

section
variable {s : System} {id : ℕ} {y : VirtualChainSyncer}

theorem takeAck_stop (hget : get s.syncers id = some y) (hphase : y.phase ≠ .stopped)
    (hack : y.ack = some .stop) : takeAck id s =
      .ok { s with
        syncers := put s.syncers id { y with phase := .stopped, ack := none }
        syncerQueue := s.syncerQueue ++ [.stopped id] } := by
  obtain ⟨vcFrom, phase, ack⟩ := y
  obtain rfl : ack = some .stop := hack
  cases phase with
  | asking => simp [takeAck, hget]
  | waiting => simp [takeAck, hget]
  | stopped => exact absurd rfl hphase

theorem takeAck_proceed (hget : get s.syncers id = some y) (hphase : y.phase = .waiting)
    (hack : y.ack = some .proceed) : takeAck id s =
      .ok { s with syncers := put s.syncers id { y with phase := .asking, ack := none } } := by
  obtain ⟨vcFrom, phase, ack⟩ := y
  obtain rfl : ack = some .proceed := hack
  obtain rfl : phase = .waiting := hphase
  simp [takeAck, hget]

theorem takeAck_none (hack : ∀ y, get s.syncers id = some y → y.ack = none) : takeAck id s = .ok s := by
  cases hget : get s.syncers id with
  | none => simp [takeAck, hget]
  | some y =>
    obtain ⟨vcFrom, phase, ack⟩ := y
    obtain rfl : ack = none := hack _ hget
    cases phase <;> simp [takeAck, hget]

theorem sendAck_open (hget : get s.syncers id = some y) (hphase : y.phase ≠ .stopped)
    (hack : y.ack = none) (ack : NotificationAck) : sendAck id ack s =
      .ok { s with syncers := put s.syncers id { y with ack := some ack } } := by
  simp [sendAck, hget, hack, Except.bind, hphase]

theorem put_put {κ ν : Type} [DecidableEq κ] (p : Partition κ ν) (k : κ) (v w : ν) :
    put (put p k v) k w = put p k w := by
  simp [put, List.filter_filter]

/-- The word to stop comes after the one to go on. -/
theorem sendAck_told (hget : get s.syncers id = some y) (hphase : y.phase = .waiting)
    (hack : y.ack = some .proceed) (ack : NotificationAck) : sendAck id ack s =
      .ok { s with syncers := put s.syncers id { y with phase := .asking, ack := some ack } } := by
  simp [sendAck, takeAck_proceed hget hphase hack, hget, hack, Except.bind, get_put, put_put]

theorem sendAck_stopped (hget : get s.syncers id = some y) (hphase : y.phase = .stopped)
    (hack : y.ack = none) (ack : NotificationAck) : sendAck id ack s = .error .channelClosed := by
  simp [sendAck, hget, hack, Except.bind, hphase]

/-- Nothing more gets through to a syncer that was told to stop. -/
theorem sendAck_closing {answers : List ChainChange} {stash : Option ChainChange}
    (hget : get s.syncers id = some y) (h : Closing y answers stash) (ack : NotificationAck) :
    sendAck id ack s = .error .channelClosed := by
  rcases h.told with ⟨hphase, hack⟩ | ⟨hphase, hack⟩
  · simp [sendAck, takeAck_stop hget hphase hack, hget, hack, Except.bind, get_put]
  · exact sendAck_stopped hget hphase hack ack

end

/-! ## What is written -/

/-- The block at which the changes end. -/
def endOf (base : Hash) (written : List WrittenChange) : Hash :=
  written.foldl (fun base w => lastOf base w.change) base

theorem endOf_append (base : Hash) (written : List WrittenChange) (w : WrittenChange) :
    endOf base (written ++ [w]) = lastOf (endOf base written) w.change := by
  rw [endOf, List.foldl_append]
  rfl

/-- The block of the cursor that is stored, where no refusal cleared it. -/
def stored (cursor : Option Cursor) (base : Hash) : List WrittenChange → Option Hash
  | [] => cursor.map (·.blockHash)
  | w :: written => some (endOf base (w :: written))

theorem stored_append (cursor : Option Cursor) (base : Hash) (written : List WrittenChange)
    (w : WrittenChange) : stored cursor base (written ++ [w]) = some (endOf base (written ++ [w])) := by
  cases written <;> rfl

/-- Each change is written onto the block at which the one before ended, and those of the syncers
are answers for it. -/
def Linked (follows : Hash → ChainChange → Prop) : Hash → List WrittenChange → Prop
  | _, [] => True
  | base, w :: written => (w.base = base ∧ (w.source = .syncer → follows base w.change)) ∧
    Linked follows (lastOf base w.change) written

theorem linked_append {follows : Hash → ChainChange → Prop} {base : Hash}
    {written more : List WrittenChange} :
    Linked follows base (written ++ more) ↔
      Linked follows base written ∧ Linked follows (endOf base written) more := by
  induction written generalizing base with
  | nil => simp [Linked, endOf]
  | cons w written ih =>
    rw [List.cons_append, Linked, Linked, ih]
    exact and_assoc.symm

/-! ## The invariant -/

def lastAccepting : SyncState → Option (Hash × ℕ)
  | .initial => none
  | .synced _ last | .syncing last _ _ _ => some last

def currentId : SyncState → ℕ
  | .initial => 0
  | .synced id _ | .syncing _ id _ _ => id

def Refusal (done : List Event) : Prop := ∃ id pruned, .refuse id pruned ∈ done

def isConnected : Event → Bool
  | .vcc (.connected _ _ _) => true
  | _ => false

/-- What is written goes from `base` to the last accepting block and to the cursor that is stored. -/
structure Wrote (follows : Hash → ChainChange → Prop) (cursor : Option Cursor) (base : Hash)
    (done : List Event) (state : SyncState) (latest : Option Cursor) (written : List WrittenChange) :
    Prop where
  linked : Linked follows base written
  last : ∀ last, lastAccepting state = some last → last.1 = endOf base written
  cursor : ¬Refusal done → latest.map (·.blockHash) = stored cursor base written

/-- The parties agree, after the events that are done, in a run that resumes at `base`. -/
structure Agrees (follows : Hash → ChainChange → Prop) (cursor : Option Cursor) (base : Hash)
    (done : List Event) (s : System) : Prop where
  initial : s.processor.syncState = .initial →
    s.syncers = [] ∧ s.processor.written = [] ∧ s.processor.latestAcceptingBlockCursor = cursor ∧
      (s.processor.finished = false → ∀ e ∈ done, isConnected e = false)
  connected : s.processor.syncState ≠ .initial → ∃ e ∈ done, isConnected e = true
  answers : ∀ id c, .virtualChain id c ∈ s.syncerQueue →
    Sound c ∧ ∃ last target stash, s.processor.syncState = .syncing last id target stash
  stops : ∀ id, .stopped id ∈ s.syncerQueue → ∃ y, get s.syncers id = some y ∧ y.phase = .stopped
  others : ∀ id y, get s.syncers id = some y → id ≤ currentId s.processor.syncState ∧
    ((∃ last target stash, s.processor.syncState = .syncing last id target stash) ∨ Released y)
  current : ∀ last id target stash, s.processor.syncState = .syncing last id target stash →
    ∃ y, get s.syncers id = some y ∧
      (s.processor.shuttingDown = false ∧
          Turn follows (Refusal done) last.1 y (answersIn s.syncerQueue) stash ∨
        s.processor.shuttingDown = true ∧ Closing y (answersIn s.syncerQueue) stash)
  shut : s.processor.shuttingDown = true → .vcc .shutdown ∈ done
  ending : s.processor.shuttingDown = true → s.processor.finished = false →
    ∃ last id target stash, s.processor.syncState = .syncing last id target stash
  stashed : ∀ last id target c, s.processor.syncState = .syncing last id target (some c) →
    Sound c ∧ c.added ≠ []
  queued : ∀ c ∈ s.processor.realtimeQueueVcc, Sound c
  wrote : Wrote follows cursor base done s.processor.syncState
    s.processor.latestAcceptingBlockCursor s.processor.written

/-- A word that comes too late, or a syncer that was refused. -/
def Excused (done : List Event) (f : Fault) : Prop :=
  f = .channelClosed ∧ .vcc .shutdown ∈ done ∨ f = .stillSyncing ∧ Refusal done

section
variable {follows : Hash → ChainChange → Prop} {cursor : Option Cursor} {base : Hash}
  {done : List Event} {s s' : System} {last last' : Hash × ℕ} {id : ℕ} {target target' : Hash × ℕ}
  {stash stash' : Option ChainChange} {y y' : VirtualChainSyncer} {c : ChainChange}
  {queue : List SyncVccNotification}

theorem Refusal.mono {e : Event} (h : Refusal done) : Refusal (done ++ [e]) := by
  obtain ⟨id, pruned, hmem⟩ := h
  exact ⟨id, pruned, List.mem_append_left _ hmem⟩

theorem Wrote.later {state : SyncState} {latest : Option Cursor} {written : List WrittenChange}
    (h : Wrote follows cursor base done state latest written) (e : Event) :
    Wrote follows cursor base (done ++ [e]) state latest written :=
  ⟨h.linked, h.last, fun hnone => h.cursor fun hrefusal => hnone hrefusal.mono⟩

/-- An event that changes nothing. -/
theorem Agrees.same (h : Agrees follows cursor base done s) {e : Event}
    (hconnected : s.processor.finished = false → isConnected e = true →
      s.processor.syncState ≠ .initial) : Agrees follows cursor base (done ++ [e]) s :=
  { h with
    initial := fun hinitial => by
      obtain ⟨hsyncers, hwritten, hcursor, hnone⟩ := h.initial hinitial
      refine ⟨hsyncers, hwritten, hcursor, fun hrunning e' he' => ?_⟩
      rcases List.mem_append.mp he' with he' | he'
      · exact hnone hrunning e' he'
      · obtain rfl := List.mem_singleton.mp he'
        exact Bool.eq_false_iff.mpr fun htrue => hconnected hrunning htrue hinitial
    connected := fun hstate => by
      obtain ⟨e', hmem, he'⟩ := h.connected hstate
      exact ⟨e', List.mem_append_left _ hmem, he'⟩
    current := fun last id target stash hstate => by
      obtain ⟨y, hget, hturn | hclosing⟩ := h.current last id target stash hstate
      · exact ⟨y, hget, .inl ⟨hturn.1, hturn.2.mono Refusal.mono⟩⟩
      · exact ⟨y, hget, .inr hclosing⟩
    shut := fun hshut => List.mem_append_left _ (h.shut hshut)
    wrote := h.wrote.later e }

theorem start_agrees (follows : Hash → ChainChange → Prop) (blocks : Partition Hash (ℕ × ℕ))
    (cursor : Option Cursor) (base : Hash) : Agrees follows cursor base [] (start blocks cursor) where
  initial _ := ⟨rfl, rfl, rfl, by simp⟩
  connected hstate := absurd rfl hstate
  answers id c hmem := by cases hmem
  stops id hmem := by cases hmem
  others id y hget := by cases hget
  current last id target stash hstate := by cases hstate
  shut hshut := by cases hshut
  ending hshut := by cases hshut
  stashed last id target c hstate := by cases hstate
  queued c hc := by cases hc
  wrote := ⟨trivial, fun last hlast => (by cases hlast), fun _ => rfl⟩

/-- The current syncer goes on, and the processor with it. -/
theorem agrees_syncing (h : Agrees follows cursor base done s)
    (hstate : s.processor.syncState = .syncing last id target stash)
    (hstate' : s'.processor.syncState = .syncing last' id target' stash')
    (hget : get s.syncers id = some y) (hstopped : y.phase = .stopped → y'.phase = .stopped)
    (hsyncers : ∀ i, get s'.syncers i = if i = id then some y' else get s.syncers i)
    (hqueue : ∀ m ∈ s'.syncerQueue, m ∈ s.syncerQueue ∨ (∃ c, Sound c ∧ m = .virtualChain id c) ∨
      m = .stopped id ∧ y'.phase = .stopped)
    (hturn : s'.processor.shuttingDown = false ∧
          Turn follows (Refusal done) last'.1 y' (answersIn s'.syncerQueue) stash' ∨
        (s'.processor.shuttingDown = true ∧ .vcc .shutdown ∈ done) ∧
          Closing y' (answersIn s'.syncerQueue) stash')
    (hstashed : ∀ c, stash' = some c → Sound c ∧ c.added ≠ [])
    (hqueued : s'.processor.realtimeQueueVcc = s.processor.realtimeQueueVcc)
    (hwrote : Wrote follows cursor base done s'.processor.syncState
      s'.processor.latestAcceptingBlockCursor s'.processor.written) : Agrees follows cursor base done s' where
  initial hinitial := by cases hstate'.symm.trans hinitial
  connected _ := h.connected (by simp [hstate])
  answers i c hmem := by
    rcases hqueue _ hmem with hmem | ⟨c', hsound, heq⟩ | ⟨heq, -⟩
    · obtain ⟨hsound, _, _, _, hcurrent⟩ := h.answers i c hmem
      obtain ⟨-, rfl, -⟩ := SyncState.syncing.inj (hstate.symm.trans hcurrent)
      exact ⟨hsound, _, _, _, hstate'⟩
    · obtain ⟨rfl, rfl⟩ := SyncVccNotification.virtualChain.inj heq
      exact ⟨hsound, _, _, _, hstate'⟩
    · cases heq
  stops i hmem := by
    rw [hsyncers]
    rcases hqueue _ hmem with hmem | ⟨c', -, heq⟩ | ⟨heq, hphase⟩
    · obtain ⟨z, hz, hphase⟩ := h.stops i hmem
      split
      · next heq =>
        subst heq
        obtain rfl := Option.some.inj (hget.symm.trans hz)
        exact ⟨y', rfl, hstopped hphase⟩
      · exact ⟨z, hz, hphase⟩
    · cases heq
    · obtain rfl := SyncVccNotification.stopped.inj heq
      exact ⟨y', if_pos rfl, hphase⟩
  others i z hz := by
    rw [hsyncers] at hz
    rw [hstate']
    split at hz
    · next heq => exact ⟨heq.le, .inl ⟨_, _, _, by rw [heq]⟩⟩
    · next hne =>
      obtain ⟨hle, hcurrent⟩ := h.others i z hz
      rw [hstate] at hle hcurrent
      refine ⟨hle, .inr (hcurrent.resolve_left ?_)⟩
      rintro ⟨_, _, _, heq⟩
      exact hne (SyncState.syncing.inj heq).2.1.symm
  current _ _ _ _ heq := by
    obtain ⟨rfl, rfl, rfl, rfl⟩ := SyncState.syncing.inj (hstate'.symm.trans heq)
    exact ⟨y', by rw [hsyncers, if_pos rfl], hturn.imp_right fun hclosing => ⟨hclosing.1.1, hclosing.2⟩⟩
  shut hshut := by
    rcases hturn with ⟨hopen, -⟩ | ⟨⟨-, hdone⟩, -⟩
    · cases hopen.symm.trans hshut
    · exact hdone
  ending _ _ := ⟨_, _, _, _, hstate'⟩
  stashed _ _ _ c heq := hstashed c (SyncState.syncing.inj (hstate'.symm.trans heq)).2.2.2
  queued := hqueued ▸ h.queued
  wrote := hwrote

theorem released_get (h : Agrees follows cursor base done s) (hget : get s.syncers id = some y)
    (hnot : ∀ last target stash, s.processor.syncState ≠ .syncing last id target stash) :
    Released y := by
  rcases (h.others id y hget).2 with ⟨last, target, stash, hstate⟩ | hreleased
  · exact absurd hstate (hnot last target stash)
  · exact hreleased

/-! ## Syncers take their turn -/

/-- A syncer that asks is the current one, and nothing of it is on the way. -/
theorem current_of_asking (h : Agrees follows cursor base done s)
    (hget : get s.syncers id = some y) (hphase : y.phase = .asking) :
    ∃ last target, s.processor.syncState = .syncing last id target none ∧ answersIn s.syncerQueue = [] ∧
      (s.processor.shuttingDown = false ∧ y.ack = none ∧ y.vcFrom = last.1 ∨
        s.processor.shuttingDown = true ∧ y.ack = some .stop) := by
  have hnot : ¬Released y := by
    rintro (⟨hother, -⟩ | ⟨hother, -⟩) <;> cases hphase.symm.trans hother
  obtain ⟨last, target, stash, hstate⟩ := (h.others id y hget).2.resolve_right hnot
  obtain ⟨y', hget', hturn⟩ := h.current last id target stash hstate
  obtain rfl := Option.some.inj (hget'.symm.trans hget)
  rcases hturn with ⟨hopen, hturn⟩ | ⟨hshut, hclosing⟩
  · obtain ⟨hack, hfrom, hanswers, rfl⟩ := hturn.of_asking hphase
    exact ⟨last, target, hstate, hanswers, .inl ⟨hopen, hack, hfrom⟩⟩
  · obtain ⟨hanswers, rfl⟩ := hclosing.asking hphase
    exact ⟨last, target, hstate, hanswers, .inr ⟨hshut, (hclosing.told.resolve_right (by simp [hphase])).2⟩⟩

theorem agrees_answer (h : Agrees follows cursor base done s) (hsound : Sound c)
    (hfollows : ∀ y, get s.syncers id = some y → y.phase = .asking → follows y.vcFrom c) :
    Agrees follows cursor base (done ++ [.answer id c]) (answer id c s) := by
  have hsame := h.same (e := .answer id c) fun _ htrue => by cases htrue
  unfold answer
  cases hget : get s.syncers id with
  | none => exact hsame
  | some y =>
    dsimp only
    split
    · next hphase =>
      obtain ⟨last, target, hstate, hanswers, hturn⟩ := current_of_asking h hget hphase
      refine agrees_syncing hsame hstate hstate hget (by simp [hphase]) (get_put _ _ _) (fun m hm => ?_) ?_
        (by simp) rfl hsame.wrote
      · exact (List.mem_append.mp hm).imp_right fun hm => .inl ⟨c, hsound, List.mem_singleton.mp hm⟩
      · rw [answersIn_append, hanswers, List.nil_append]
        rcases hturn with ⟨hopen, hack, hfrom⟩ | ⟨hshut, hack⟩
        · exact .inl ⟨hopen, .answered rfl hack (by rw [hfrom]; rfl) (hfrom ▸ hfollows y hget hphase)⟩
        · exact .inr ⟨⟨hshut, hsame.shut hshut⟩, .inl ⟨by simp, hack⟩, by simp [answersIn], by simp⟩
    · exact hsame

theorem agrees_refuse (h : Agrees follows cursor base done s) {pruned : Bool} :
    Agrees follows cursor base (done ++ [.refuse id pruned]) (refuse id pruned s) := by
  have hsame := h.same (e := .refuse id pruned) fun _ htrue => by cases htrue
  have hrefusal : Refusal (done ++ [.refuse id pruned]) := ⟨id, pruned, by simp⟩
  unfold refuse
  cases hget : get s.syncers id with
  | none => exact hsame
  | some y =>
    dsimp only
    split
    · next hphase =>
      obtain ⟨last, target, hstate, hanswers, hturn⟩ := current_of_asking h hget hphase
      have hprocessor (latest : Option Cursor) : Agrees follows cursor base (done ++ [.refuse id pruned]) {
          processor := { s.processor with latestAcceptingBlockCursor := latest }
          syncers := put s.syncers id { y with phase := .stopped, ack := none }
          syncerQueue := s.syncerQueue ++ [.stopped id] } := by
        refine agrees_syncing hsame hstate hstate hget (by simp) (get_put _ _ _) (fun m hm => ?_) ?_
          (by simp) rfl ⟨h.wrote.linked, h.wrote.last, fun hnone => absurd hrefusal hnone⟩
        · exact (List.mem_append.mp hm).imp_right fun hm => .inr ⟨List.mem_singleton.mp hm, rfl⟩
        · rw [answersIn_append, hanswers, List.nil_append]
          rcases hturn with ⟨hopen, -, -⟩ | ⟨hshut, -⟩
          · exact .inl ⟨hopen, .refused rfl rfl hrefusal⟩
          · exact .inr ⟨⟨hshut, hsame.shut hshut⟩, .inr ⟨rfl, rfl⟩, by simp [answersIn], by simp⟩
      cases pruned with
      | false => exact hprocessor s.processor.latestAcceptingBlockCursor
      | true => exact hprocessor none
    · exact hsame

/-- A syncer of before takes the word to stop. -/
theorem agrees_released (h : Agrees follows cursor base done s)
    (hnot : ∀ last target stash, s.processor.syncState ≠ .syncing last id target stash)
    (hget : get s.syncers id = some y) :
    Agrees follows cursor base done { s with
      syncers := put s.syncers id { y with phase := .stopped, ack := none }
      syncerQueue := s.syncerQueue ++ [.stopped id] } := by
  have hqueue : answersIn (s.syncerQueue ++ [.stopped id]) = answersIn s.syncerQueue := by
    rw [answersIn_append]
    exact List.append_nil _
  refine { h with
    initial := fun hinitial => ?_
    answers := fun i c hmem => h.answers i c (by simpa using hmem)
    stops := fun i hmem => ?_
    others := fun i z hz => ?_
    current := fun last i target stash hstate => ?_ }
  · rw [(h.initial hinitial).1] at hget
    cases hget
  · dsimp only
    rw [get_put]
    split
    · exact ⟨_, rfl, rfl⟩
    · next hne =>
      rcases List.mem_append.mp hmem with hmem | hmem
      · exact h.stops i hmem
      · simp only [List.mem_singleton, SyncVccNotification.stopped.injEq] at hmem
        exact absurd hmem hne
  · dsimp only at hz
    rw [get_put] at hz
    split at hz
    · next heq =>
      subst heq
      obtain rfl := Option.some.inj hz
      exact ⟨(h.others _ y hget).1, .inr (.inr ⟨rfl, rfl⟩)⟩
    · exact h.others i z hz
  · obtain ⟨z, hz, hturn⟩ := h.current last i target stash hstate
    have hne : i ≠ id := fun heq => hnot last target stash (heq ▸ hstate)
    refine ⟨z, by dsimp only; rw [get_put, if_neg hne]; exact hz, ?_⟩
    rwa [hqueue]

theorem agrees_ack (h : Agrees follows cursor base done s) :
    Ends (Excused (done ++ [.ack id])) (Agrees follows cursor base (done ++ [.ack id])) (takeAck id s) := by
  have hsame := h.same (e := .ack id) fun _ htrue => by cases htrue
  cases hget : get s.syncers id with
  | none =>
    rw [takeAck_none fun y hy => by cases hget.symm.trans hy]
    exact hsame
  | some y =>
    have hnone (hack : y.ack = none) : takeAck id s = .ok s :=
      takeAck_none fun z hz => Option.some.inj (hget.symm.trans hz) ▸ hack
    by_cases hcurrent : ∃ last target stash, s.processor.syncState = .syncing last id target stash
    · obtain ⟨last, target, stash, hstate⟩ := hcurrent
      obtain ⟨z, hz, hturn⟩ := hsame.current last id target stash hstate
      obtain rfl := Option.some.inj (hz.symm.trans hget)
      have hstashed (c : ChainChange) (hc : stash = some c) := h.stashed last id target c (hc ▸ hstate)
      rcases hturn with ⟨hopen, hturn⟩ | ⟨hshut, hclosing⟩
      · generalize hanswers : answersIn s.syncerQueue = answers at hturn
        cases hturn with
        | told hphase hack hfrom =>
          rw [takeAck_proceed hget hphase hack]
          exact agrees_syncing hsame hstate hstate hget (by simp [hphase]) (get_put _ _ _)
            (fun m hm => .inl hm) (.inl ⟨hopen, by rw [hanswers]; exact .asked rfl rfl hfrom⟩) hstashed rfl
            hsame.wrote
        | asked _ hack | answered _ hack | stashed _ hack | refused _ hack =>
          rw [hnone hack]
          exact hsame
      · rcases hclosing.told with ⟨hphase, hack⟩ | ⟨hphase, hack⟩
        · rw [takeAck_stop hget hphase hack]
          refine agrees_syncing hsame hstate hstate hget (by simp) (get_put _ _ _) (fun m hm => ?_)
            (.inr ⟨⟨hshut, hsame.shut hshut⟩, .inr ⟨rfl, rfl⟩, ?_, by simp⟩) hstashed rfl hsame.wrote
          · exact (List.mem_append.mp hm).imp_right fun hm => .inr ⟨List.mem_singleton.mp hm, rfl⟩
          · simpa [answersIn] using hclosing.single
        · rw [hnone hack]
          exact hsame
    · have hnot (last target : Hash × ℕ) (stash : Option ChainChange) :
          s.processor.syncState ≠ .syncing last id target stash :=
        fun hstate => hcurrent ⟨last, target, stash, hstate⟩
      rcases released_get h hget hnot with ⟨hphase, hack⟩ | ⟨-, hack⟩
      · rw [takeAck_stop hget (by simp [hphase]) hack]
        exact agrees_released hsame hnot hget
      · rw [hnone hack]
        exact hsame

/-! ## What the processor writes -/

theorem last_of_moves (hsound : Sound c) (hmoves : ¬(c.removed = [] ∧ c.added = [])) :
    ∃ last ∈ c.added, c.added.getLast? = some last := by
  have hadds : c.added ≠ [] := fun hnone => hmoves ⟨hsound.adds hnone, hnone⟩
  exact ⟨c.added.getLast hadds, List.getLast_mem hadds, List.getLast?_eq_some_getLast hadds⟩

theorem known_of_added {p : VirtualProcessor} (hknown : unprocessed p c = false)
    {hash : Hash} (hmem : hash ∈ c.added) : ∃ work, get p.processedBlocks hash = some work := by
  have hget := List.any_eq_false.mp hknown hash hmem
  exact Option.ne_none_iff_exists'.mp (by simpa using hget)

theorem handleVcc_ok (hsound : Sound c)
    (hmoves : ¬(c.removed = [] ∧ c.added = [])) {p : VirtualProcessor}
    (hknown : unprocessed p c = false) (source : Source) (base : Hash) :
    ∃ cursor blueWork, cursor.blockHash = lastOf base c ∧ handleVcc source base c p = .ok ({ p with
      latestAcceptingBlockCursor := some cursor
      written := p.written ++ [⟨source, base, c⟩] }, (lastOf base c, blueWork)) := by
  obtain ⟨last, hmem, hlast⟩ := last_of_moves hsound hmoves
  obtain ⟨⟨daaScore, blueWork⟩, hget⟩ := known_of_added hknown hmem
  have haccepted : (c.accepted.any fun block => (get p.processedBlocks block.1).isNone) = false := by
    refine List.any_eq_false.mpr fun block hblock => ?_
    obtain ⟨work, hwork⟩ := known_of_added hknown (hsound.accepts block hblock)
    simp [hwork]
  refine ⟨⟨blueWork, last, daaScore⟩, blueWork, by simp [lastOf, hlast], ?_⟩
  simp [handleVcc, haccepted, hlast, hget, lastOf]

/-- One more change is written onto the last accepting block. -/
theorem Wrote.append {state : SyncState} {cursor' : Option Cursor} {written : List WrittenChange}
    (h : Wrote follows cursor base done state cursor' written)
    (hlast : lastAccepting state = some last) (source : Source) (state' : SyncState)
    (hfollows : source = .syncer → follows last.1 c) {latest : Cursor}
    (hlatest : latest.blockHash = lastOf last.1 c) {blueWork : ℕ}
    (hstate : lastAccepting state' = some (lastOf last.1 c, blueWork)) :
    Wrote follows cursor base done state' (some latest) (written ++ [⟨source, last.1, c⟩]) := by
  have hbase := h.last last hlast
  have hends : lastOf last.1 c = endOf base (written ++ [⟨source, last.1, c⟩]) := by
    rw [endOf_append, ← hbase]
  have hlinked : Linked follows base (written ++ [⟨source, last.1, c⟩]) :=
    linked_append.mpr ⟨h.linked, ⟨hbase, hbase ▸ hfollows⟩, trivial⟩
  refine ⟨hlinked, fun last' hlast' => ?_, fun _ => ?_⟩
  · obtain rfl := Option.some.inj (hstate.symm.trans hlast')
    exact hends
  · rw [stored_append, ← hends, ← hlatest]
    rfl

theorem reaches_ok (hsound : Sound c) (hmoves : ¬(c.removed = [] ∧ c.added = [])) {p : VirtualProcessor}
    (hknown : unprocessed p c = false) (target : Hash × ℕ) : ∃ reached, reaches p target c = .ok reached := by
  obtain ⟨last, hmem, hlast⟩ := last_of_moves hsound hmoves
  obtain ⟨⟨daaScore, blueWork⟩, hget⟩ := known_of_added hknown hmem
  unfold reaches
  simp only [hlast, hget]
  split
  · exact ⟨true, rfl⟩
  · exact ⟨_, rfl⟩

theorem mem_answersIn : c ∈ answersIn queue ↔ ∃ id, .virtualChain id c ∈ queue := by
  rw [answersIn, List.mem_filterMap]
  constructor
  · rintro ⟨m, hmem, heq⟩
    cases m with
    | virtualChain id c' => exact ⟨id, Option.some.inj heq ▸ hmem⟩
    | stopped id => cases heq
  · rintro ⟨id, hmem⟩
    exact ⟨_, hmem, rfl⟩

theorem no_answers (h : Agrees follows cursor base done s)
    (hnot : ∀ last id target stash, s.processor.syncState ≠ .syncing last id target stash) :
    answersIn s.syncerQueue = [] := by
  refine List.eq_nil_iff_forall_not_mem.mpr fun c hc => ?_
  obtain ⟨id, hmem⟩ := mem_answersIn.mp hc
  obtain ⟨-, last, target, stash, hstate⟩ := h.answers id c hmem
  exact hnot last id target stash hstate

/-! ## The answer of a syncer -/

/-- The answer that comes is the only one, and nothing waits for its blocks. -/
theorem answered_turn (h : Agrees follows cursor base done s)
    (hqueue : s.syncerQueue = .virtualChain id c :: queue) :
    Sound c ∧ answersIn queue = [] ∧ ∃ last target y,
      s.processor.syncState = .syncing last id target none ∧ get s.syncers id = some y ∧
        (s.processor.shuttingDown = false ∧ y.phase = .waiting ∧ y.ack = none ∧
            y.vcFrom = lastOf last.1 c ∧ follows last.1 c ∨
          s.processor.shuttingDown = true ∧ Closing y [c] none) := by
  obtain ⟨hsound, last, target, stash, hstate⟩ := h.answers id c (hqueue ▸ List.mem_cons_self)
  have hanswers : answersIn s.syncerQueue = c :: answersIn queue := by
    rw [hqueue]
    rfl
  obtain ⟨y, hget, hturn⟩ := h.current last id target stash hstate
  rw [hanswers] at hturn
  have hsingle : (c :: answersIn queue).length + stash.toList.length ≤ 1 := by
    rcases hturn with ⟨-, hturn⟩ | ⟨-, hclosing⟩
    · exact hturn.single
    · exact hclosing.single
  obtain rfl : stash = none := by
    cases stash with
    | none => rfl
    | some c' => simp at hsingle
  have hrest : answersIn queue = [] := by simpa using hsingle
  rw [hrest] at hturn
  refine ⟨hsound, hrest, last, target, y, hstate, hget, ?_⟩
  rcases hturn with ⟨hopen, hturn⟩ | hclosing
  · cases hturn with
    | answered hphase hack hfrom hfollows => exact .inl ⟨hopen, hphase, hack, hfrom, hfollows⟩
  · exact .inr hclosing

theorem get_same (hget : get s.syncers id = some y) (i : ℕ) :
    get s.syncers i = if i = id then some y else get s.syncers i := by
  split
  · next heq => rw [heq, hget]
  · rfl

/-- The processor takes the answer, and it waits for its blocks. -/
theorem agrees_stash (h : Agrees follows cursor base done s)
    (hqueue : s.syncerQueue = .virtualChain id c :: queue)
    (hstate : s.processor.syncState = .syncing last id target none) (hadds : c.added ≠ []) :
    Agrees follows cursor base done { s with
      processor := { s.processor with syncState := .syncing last id target (some c) }
      syncerQueue := queue } := by
  obtain ⟨hsound, hrest, last', target', y, hstate', hget, hturn⟩ := answered_turn h hqueue
  obtain ⟨rfl, -, rfl, -⟩ := SyncState.syncing.inj (hstate'.symm.trans hstate)
  refine agrees_syncing h hstate rfl hget (fun hstopped => hstopped) (get_same hget)
    (fun m hm => .inl (hqueue ▸ List.mem_cons_of_mem _ hm)) ?_ (fun c' hc' => ?_) rfl
    ⟨h.wrote.linked, fun last' hlast => h.wrote.last last' (by rw [hstate]; exact hlast), h.wrote.cursor⟩
  · dsimp only
    rw [hrest]
    rcases hturn with ⟨hopen, hphase, hack, hfrom, hfollows⟩ | ⟨hshut, hclosing⟩
    · exact .inl ⟨hopen, .stashed hphase hack hfrom hfollows⟩
    · refine .inr ⟨⟨hshut, h.shut hshut⟩, hclosing.told, by simp, fun hasking => ?_⟩
      cases (hclosing.asking hasking).1
  · exact Option.some.inj hc' ▸ ⟨hsound, hadds⟩

theorem excused_late (h : Agrees follows cursor base done s) (hshut : s.processor.shuttingDown = true) :
    Excused done .channelClosed := .inl ⟨rfl, h.shut hshut⟩

/-- The syncer is told to go on from where the answer ended. -/
theorem agrees_proceed (h : Agrees follows cursor base done s)
    (hstate : s.processor.syncState = .syncing last id target stash)
    (hget : get s.syncers id = some y) (hphase : y.phase = .waiting)
    {p : VirtualProcessor}
    (hwrote : Wrote follows cursor base done p.syncState p.latestAcceptingBlockCursor p.written)
    (hstate' : p.syncState = .syncing last' id target none) (hopen : p.shuttingDown = false)
    (hqueued : p.realtimeQueueVcc = s.processor.realtimeQueueVcc)
    (hqueue : ∀ m ∈ queue, m ∈ s.syncerQueue) (hanswers : answersIn queue = [])
    (hfrom : y.vcFrom = last'.1) : Agrees follows cursor base done {
      processor := p
      syncers := put s.syncers id { y with ack := some .proceed }
      syncerQueue := queue } := by
  refine @agrees_syncing _ _ _ _ _ _ _ _ _ _ _ _ _ y { y with ack := some .proceed } h hstate hstate' hget
    (fun hstopped => hstopped) (get_put _ _ _) (fun m hm => .inl (hqueue m hm)) (.inl ⟨hopen, ?_⟩) (by simp)
    hqueued hwrote
  dsimp only
  rw [hanswers]
  exact .told hphase rfl hfrom

/-- What was brought or came of itself is written, and the processor is where the chain is. -/
theorem agrees_synced (h : Agrees follows cursor base done s)
    (hstate : s.processor.syncState ≠ .initial)
    (hopen : s.processor.finished = false → s.processor.shuttingDown = false)
    (hanswers : answersIn s.syncerQueue = []) {syncers : Partition ℕ VirtualChainSyncer}
    (hsyncers : ∀ i z, get syncers i = some z → i ≤ id ∧ Released z)
    (hstops : ∀ i z, get s.syncers i = some z → z.phase = .stopped → get syncers i = some z)
    {latest : Option Cursor} {written : List WrittenChange}
    (hwrote : Wrote follows cursor base done (.synced id last) latest written) :
    Agrees follows cursor base done { s with
      processor := { s.processor with
        latestAcceptingBlockCursor := latest
        written := written
        syncState := .synced id last }
      syncers := syncers } where
  initial hinitial := by cases hinitial
  connected _ := h.connected hstate
  answers i c hmem := by
    have hc := mem_answersIn.mpr ⟨i, hmem⟩
    rw [hanswers] at hc
    cases hc
  stops i hmem := by
    obtain ⟨z, hz, hphase⟩ := h.stops i hmem
    exact ⟨z, hstops i z hz hphase, hphase⟩
  others i z hz := (hsyncers i z hz).imp_right .inr
  current _ _ _ _ heq := by cases heq
  shut := h.shut
  ending hshut hrunning := by cases (hopen hrunning).symm.trans hshut
  stashed _ _ _ _ heq := by cases heq
  queued := h.queued
  wrote := hwrote

theorem agrees_handleAnswer (h : Agrees follows cursor base done { s with processor :=
      { s.processor with syncState := .syncing last id target (some c) } })
    (hknown : unprocessed s.processor c = false) :
    Ends (Excused done) (Agrees follows cursor base done) (handleAnswer last id target none c s) := by
  obtain ⟨hsound, hadds⟩ := h.stashed last id target c rfl
  have hmoves : ¬(c.removed = [] ∧ c.added = []) := fun hstays => hadds hstays.2
  obtain ⟨reached, hreached⟩ := reaches_ok hsound hmoves hknown target
  obtain ⟨latest, blueWork, hlatest, hwrite⟩ := handleVcc_ok hsound hmoves hknown .syncer last.1
  obtain ⟨y, hget, ⟨hopen, hturn⟩ | ⟨hshut, hclosing⟩⟩ := h.current last id target (some c) rfl
  all_goals replace hget : get s.syncers id = some y := hget
  · generalize hanswers : answersIn s.syncerQueue = answers at hturn
    cases hturn with
    | stashed hphase hack hfrom hfollows =>
      unfold handleAnswer
      rw [hreached]
      cases reached with
      | true =>
        rw [sendAck_open hget (by simp [hphase]) hack]
        simp only [Except.bind, if_true, hwrite, Except.map]
        refine agrees_synced h (by simp) (fun _ => hopen) hanswers (fun i z hz => ?_)
          (fun i z hz hstopped => ?_) (h.wrote.append rfl .syncer _ (fun _ => hfollows) hlatest rfl)
        · rw [get_put] at hz
          split at hz
          · next heq => exact Option.some.inj hz ▸ ⟨heq.le, .inl ⟨hphase, rfl⟩⟩
          · next hne =>
            refine ⟨(h.others i z hz).1, released_get h hz ?_⟩
            rintro _ _ _ heq
            exact hne (SyncState.syncing.inj heq).2.1.symm
        · rw [get_put, if_neg]
          · exact hz
          · rintro rfl
            obtain rfl := Option.some.inj (hget.symm.trans hz)
            cases hphase.symm.trans hstopped
      | false =>
        simp only [Except.bind, Bool.false_eq_true, if_false, hwrite]
        rw [sendAck_open (by exact hget) (by simp [hphase]) hack]
        refine agrees_proceed h rfl hget hphase ?_ rfl ?_ ?_ (fun m hm => hm) hanswers hfrom
        · exact h.wrote.append rfl .syncer _ (fun _ => hfollows) hlatest rfl
        · exact hopen
        · rfl
  · unfold handleAnswer
    rw [hreached]
    cases reached with
    | true =>
      rw [sendAck_closing hget hclosing]
      exact excused_late h hshut
    | false =>
      simp only [Except.bind, Bool.false_eq_true, if_false, hwrite]
      rw [sendAck_closing (by exact hget) hclosing]
      exact excused_late h hshut

theorem agrees_syncerVc (h : Agrees follows cursor base done s)
    (hqueue : s.syncerQueue = .virtualChain id c :: queue) :
    Ends (Excused done) (Agrees follows cursor base done)
      (handleSyncerVc id c { s with syncerQueue := queue }) := by
  obtain ⟨hsound, hrest, last, target, y, hstate, hget, hturn⟩ := answered_turn h hqueue
  unfold handleSyncerVc
  simp only [hstate, ne_eq, not_true_eq_false, if_false, Option.isSome_none, Bool.false_eq_true]
  split
  · next hstays =>
    rcases hturn with ⟨hopen, hphase, hack, hfrom, -⟩ | ⟨hshut, hclosing⟩
    · rw [sendAck_open (by exact hget) (by simp [hphase]) hack]
      have hends : y.vcFrom = last.1 := by
        rw [hfrom, lastOf, hstays.2]
        rfl
      exact agrees_proceed h hstate hget hphase h.wrote hstate hopen rfl
        (fun m hm => hqueue ▸ List.mem_cons_of_mem _ hm) hrest hends
    · rw [sendAck_closing (by exact hget) hclosing]
      exact excused_late h hshut
  · next hmoves =>
    have hadds : c.added ≠ [] := fun hnone => hmoves ⟨hsound.adds hnone, hnone⟩
    have hstash := agrees_stash h hqueue hstate hadds
    split
    · exact hstash
    · next hknown => exact agrees_handleAnswer hstash (by simpa using hknown)

/-! ## The end of a syncer -/

theorem agrees_finished (h : Agrees follows cursor base done s) : Agrees follows cursor base done { s with
    processor := { s.processor with finished := true } } :=
  { h with
    initial := fun hinitial => by
      obtain ⟨hsyncers, hwritten, hcursor, -⟩ := h.initial hinitial
      exact ⟨hsyncers, hwritten, hcursor, by simp⟩
    ending := fun _ hrunning => by cases hrunning }

theorem agrees_stopped (h : Agrees follows cursor base done s)
    (hqueue : s.syncerQueue = .stopped id :: queue) :
    Ends (Excused done) (Agrees follows cursor base done)
      (handleSyncerStopped id { s with syncerQueue := queue }) := by
  have hanswers : answersIn s.syncerQueue = answersIn queue := by
    rw [hqueue]
    rfl
  have hpop : Agrees follows cursor base done { s with syncerQueue := queue } :=
    { h with
      answers := fun i c hmem => h.answers i c (hqueue ▸ List.mem_cons_of_mem _ hmem)
      stops := fun i hmem => h.stops i (hqueue ▸ List.mem_cons_of_mem _ hmem)
      current := hanswers ▸ h.current }
  obtain ⟨y, hget, hphase⟩ := h.stops id (hqueue ▸ List.mem_cons_self)
  unfold handleSyncerStopped
  dsimp only
  split
  · next hstate =>
    rw [(h.initial hstate).1] at hget
    cases hget
  · split
    · exact agrees_finished hpop
    · exact hpop
  · next last id' target stash hstate =>
    split
    · next heq =>
      subst heq
      split
      · exact agrees_finished hpop
      · next hopen =>
        obtain ⟨z, hz, ⟨-, hturn⟩ | ⟨hshut, -⟩⟩ := h.current last id target stash hstate
        · obtain rfl := Option.some.inj (hget.symm.trans hz)
          refine .inr ⟨rfl, ?_⟩
          generalize answersIn s.syncerQueue = answers at hturn
          cases hturn with
          | refused _ _ hrefusal => exact hrefusal
          | asked hother | answered hother | stashed hother | told hother =>
            cases hother.symm.trans hphase
        · exact absurd hshut hopen
    · exact hpop

/-! ## Connections and the end -/

/-- The block after which the chain is followed, when `pp` is the node's pruning point. -/
def resumePoint (cursor : Option Cursor) (pp : Hash) : Hash :=
  match cursor with
  | none => pp
  | some cursor => cursor.blockHash

/-- Upon a connection, a new syncer asks from the last accepting block. -/
theorem agrees_spawn (h : Agrees follows cursor base done s) (hrunning : s.processor.finished = false)
    {e : Event} (he : isConnected e = true)
    (target : Hash × ℕ)
    (hnot : ∀ last id target stash, s.processor.syncState ≠ .syncing last id target stash)
    (hnew : ∀ i y, get s.syncers i = some y → i ≤ id ∧ i ≠ id)
    (hlast : last.1 = endOf base s.processor.written) :
    Agrees follows cursor base (done ++ [e]) (spawnSyncer id last.1 { s with processor :=
      { s.processor with syncState := .syncing last id target none } }) := by
  have hopen : s.processor.shuttingDown = false := by
    refine Bool.eq_false_iff.mpr fun hshut => ?_
    obtain ⟨last, id, target, stash, hstate⟩ := h.ending hshut hrunning
    exact hnot last id target stash hstate
  unfold spawnSyncer
  refine ⟨fun hinitial => (by cases hinitial), fun _ => ⟨e, by simp, he⟩, fun i c hmem => ?_,
    fun i hmem => ?_, fun i z hz => ?_, fun last i target stash hstate => ?_,
    fun hshut => List.mem_append_left _ (h.shut hshut), fun _ _ => ⟨_, _, _, _, rfl⟩,
    fun last i target c hstate => (by cases hstate), h.queued,
    ⟨h.wrote.linked, fun last' hlast' => Option.some.inj hlast' ▸ hlast, (h.wrote.later e).cursor⟩⟩
  · obtain ⟨-, last, target, stash, hstate⟩ := h.answers i c hmem
    exact absurd hstate (hnot last i target stash)
  · dsimp only
    obtain ⟨z, hz, hstopped⟩ := h.stops i hmem
    rw [get_put, if_neg (hnew i z hz).2]
    exact ⟨z, hz, hstopped⟩
  · dsimp only at hz
    rw [get_put] at hz
    split at hz
    · next heq =>
      subst heq
      exact ⟨le_rfl, .inl ⟨_, _, _, rfl⟩⟩
    · exact ⟨(hnew i z hz).1, .inr (released_get h hz fun last target stash => hnot last i target stash)⟩
  · obtain ⟨rfl, rfl, rfl, rfl⟩ := SyncState.syncing.inj hstate
    refine ⟨_, by dsimp only; rw [get_put, if_pos rfl], .inl ⟨hopen, ?_⟩⟩
    dsimp only
    rw [no_answers h hnot]
    exact .asked rfl rfl rfl

/-- The target moves. -/
theorem agrees_target (h : Agrees follows cursor base done s)
    (hstate : s.processor.syncState = .syncing last id target stash) (target' : Hash × ℕ) :
    Agrees follows cursor base done { s with processor :=
      { s.processor with syncState := .syncing last id target' stash } } := by
  obtain ⟨y, hget, hturn⟩ := h.current last id target stash hstate
  exact agrees_syncing h hstate rfl hget (fun hstopped => hstopped) (get_same hget) (fun m hm => .inl hm)
    (hturn.imp_right fun hclosing => ⟨⟨hclosing.1, h.shut hclosing.1⟩, hclosing.2⟩)
    (fun c hc => h.stashed last id target c (hc ▸ hstate)) rfl
    ⟨h.wrote.linked, fun last' hlast => h.wrote.last last' (by rw [hstate]; exact hlast), h.wrote.cursor⟩

theorem agrees_connect (h : Agrees follows cursor base done s) (hrunning : s.processor.finished = false)
    {sink pp : Hash} {sinkBlueWork : ℕ}
    (hbase : s.processor.syncState = .initial → base = resumePoint cursor pp) :
    Agrees follows cursor base (done ++ [.vcc (.connected sink sinkBlueWork pp)])
      (handleConnect sink sinkBlueWork pp s) := by
  unfold handleConnect
  split
  · next hstate =>
    obtain ⟨hsyncers, hwritten, hcursor, -⟩ := h.initial hstate
    dsimp only
    refine agrees_spawn h hrunning rfl _ (by simp [hstate]) (fun i y hget => ?_) ?_
    · rw [hsyncers] at hget
      cases hget
    · rw [hwritten, hcursor, hbase hstate]
      cases cursor with
      | none => rfl
      | some cursor => rfl
  · next last id target queue hstate => exact (agrees_target h hstate _).same fun _ _ => by simp
  · next id last hstate =>
    split
    · exact h.same fun _ _ => by simp [hstate]
    · refine agrees_spawn h hrunning rfl _ (by simp [hstate]) (fun i y hget => ?_)
        (h.wrote.last last (by rw [hstate]; rfl))
      have hle := (h.others i y hget).1
      rw [hstate] at hle
      exact ⟨Nat.le_succ_of_le hle, Nat.ne_of_lt (Nat.lt_succ_of_le hle)⟩

/-- Whatever turn it is, the syncer that is told to stop is let go. -/
theorem closing_of_stop (h : Agrees follows cursor base done s) (hdone : .vcc .shutdown ∈ done)
    (hstate : s.processor.syncState = .syncing last id target stash) :
    Ends (Excused done) (Agrees follows cursor base done)
      (sendAck id .stop { s with processor := { s.processor with shuttingDown := true } }) := by
  have hlate : Excused done .channelClosed := .inl ⟨rfl, hdone⟩
  obtain ⟨y, hget, hturn⟩ := h.current last id target stash hstate
  have hnext {y' : VirtualChainSyncer} (hphase : y.phase ≠ .stopped)
      (hclosing : Closing y' (answersIn s.syncerQueue) stash) :
      Agrees follows cursor base done { s with
        processor := { s.processor with shuttingDown := true }
        syncers := put s.syncers id y' } :=
    agrees_syncing h hstate hstate hget (fun hstopped => absurd hstopped hphase) (get_put _ _ _)
      (fun m hm => .inl hm) (.inr ⟨⟨rfl, hdone⟩, hclosing⟩)
      (fun c hc => h.stashed last id target c (hc ▸ hstate)) rfl h.wrote
  rcases hturn with ⟨-, hturn⟩ | ⟨-, hclosing⟩
  · have hsingle := hturn.single
    generalize hanswers : answersIn s.syncerQueue = answers at hturn hnext hsingle
    cases hturn with
    | asked hphase hack =>
      rw [sendAck_open (by exact hget) (by simp [hphase]) hack]
      exact hnext (by simp [hphase]) ⟨.inl ⟨by simp [hphase], rfl⟩, hsingle, fun _ => ⟨rfl, rfl⟩⟩
    | answered hphase hack | stashed hphase hack =>
      rw [sendAck_open (by exact hget) (by simp [hphase]) hack]
      exact hnext (by simp [hphase])
        ⟨.inl ⟨by simp [hphase], rfl⟩, hsingle, fun hasking => by cases hphase.symm.trans hasking⟩
    | told hphase hack =>
      rw [sendAck_told (by exact hget) hphase hack]
      exact hnext (by simp [hphase]) ⟨.inl ⟨by simp, rfl⟩, hsingle, fun _ => ⟨rfl, rfl⟩⟩
    | refused hphase hack =>
      rw [sendAck_stopped (by exact hget) hphase hack]
      exact hlate
  · rw [sendAck_closing (by exact hget) hclosing]
    exact hlate

theorem agrees_shutdown (h : Agrees follows cursor base done s) :
    Ends (Excused (done ++ [.vcc .shutdown])) (Agrees follows cursor base (done ++ [.vcc .shutdown]))
      (handleShutdown s) := by
  have hsame := h.same (e := .vcc .shutdown) fun _ htrue => by cases htrue
  have hdone : .vcc .shutdown ∈ done ++ [.vcc .shutdown] := by simp
  have hfinished (hnot : ∀ last id target stash, s.processor.syncState ≠ .syncing last id target stash) :
      Agrees follows cursor base (done ++ [.vcc .shutdown])
        { s with processor := { s.processor with shuttingDown := true, finished := true } } :=
    { agrees_finished hsame with
      current := fun last id target stash hstate => absurd hstate (hnot last id target stash)
      shut := fun _ => hdone
      ending := fun _ hrunning => by cases hrunning }
  unfold handleShutdown
  dsimp only
  split
  · next hstate => exact hfinished (by simp [hstate])
  · next hstate => exact hfinished (by simp [hstate])
  · next hstate => exact closing_of_stop hsame hdone hstate

/-! ## Changes and blocks of the moment -/

theorem agrees_queue (h : Agrees follows cursor base done s) {queue : List ChainChange}
    (hqueue : ∀ c ∈ queue, Sound c) : Agrees follows cursor base done { s with processor :=
      { s.processor with realtimeQueueVcc := queue } } :=
  { h with queued := hqueue }

theorem agrees_blocks (h : Agrees follows cursor base done s) (blocks : Partition Hash (ℕ × ℕ)) :
    Agrees follows cursor base done { s with processor :=
      { s.processor with processedBlocks := blocks } } :=
  { h with }

/-- A change of the moment is written where no syncer is at work. -/
theorem agrees_realtime (h : Agrees follows cursor base done s)
    (hstate : s.processor.syncState = .synced id last) {latest : Cursor} (blueWork : ℕ)
    (hlatest : latest.blockHash = lastOf last.1 c) : Agrees follows cursor base done { s with processor :=
      { s.processor with
        latestAcceptingBlockCursor := some latest
        written := s.processor.written ++ [⟨.realtime, last.1, c⟩]
        syncState := .synced id (lastOf last.1 c, blueWork) } } := by
  have hnot : ∀ last id target stash, s.processor.syncState ≠ .syncing last id target stash := by
    simp [hstate]
  refine agrees_synced h (by simp [hstate]) (fun hrunning => ?_) (no_answers h hnot)
    (fun i z hz => ?_) (fun _ _ hz _ => hz)
    (h.wrote.append (by rw [hstate]; rfl) .realtime _ (by simp) hlatest rfl)
  · refine Bool.eq_false_iff.mpr fun hshut => ?_
    obtain ⟨_, _, _, _, hsyncing⟩ := h.ending hshut hrunning
    exact hnot _ _ _ _ hsyncing
  · have hle := (h.others i z hz).1
    rw [hstate] at hle
    exact ⟨hle, released_get h hz fun last target stash => hnot last i target stash⟩

theorem agrees_notification (h : Agrees follows cursor base done s) (hsound : Sound c)
    (hconnected : ∃ e ∈ done, isConnected e = true) (hrunning : s.processor.finished = false) :
    Ends (Excused done) (Agrees follows cursor base done) (handleRealtimeVcc c s) := by
  have hqueued : Agrees follows cursor base done { s with processor :=
      { s.processor with realtimeQueueVcc := s.processor.realtimeQueueVcc ++ [c] } } := by
    refine agrees_queue h fun c' hc' => ?_
    rcases List.mem_append.mp hc' with hc' | hc'
    · exact h.queued c' hc'
    · exact List.mem_singleton.mp hc' ▸ hsound
  unfold handleRealtimeVcc
  split
  · next hstate =>
    obtain ⟨e, hmem, he⟩ := hconnected
    exact absurd ((h.initial hstate).2.2.2 hrunning e hmem) (by simp [he])
  · next id last hstate =>
    split
    · exact h
    · next hmoves =>
      split
      · exact hqueued
      · next hready =>
        have hknown : unprocessed s.processor c = false := by
          simpa using (not_or.mp hready).2
        obtain ⟨latest, blueWork, hlatest, hwrite⟩ := handleVcc_ok hsound hmoves hknown .realtime last.1
        rw [hwrite]
        exact agrees_realtime h hstate blueWork hlatest
  · exact hqueued

/-- The changes that wait are written in their order, while their blocks are there. -/
theorem agrees_drain (queue : List ChainChange) : ∀ (last : Hash × ℕ) (p : VirtualProcessor),
    Agrees follows cursor base done { s with processor :=
      { p with realtimeQueueVcc := queue, syncState := .synced id last } } →
    Ends (Excused done) (fun p' => Agrees follows cursor base done { s with processor := p' })
      (drain id last p queue) := by
  induction queue with
  | nil => exact fun last p h => h
  | cons c queue ih =>
    intro last p h
    have hrest (c' : ChainChange) (hc' : c' ∈ queue) : Sound c' := h.queued c' (List.mem_cons_of_mem _ hc')
    unfold drain
    split
    · exact ih last p (agrees_queue h hrest)
    · next hmoves =>
      split
      · exact h
      · next hknown =>
        obtain ⟨latest, blueWork, hlatest, hwrite⟩ :=
          handleVcc_ok (h.queued c List.mem_cons_self) hmoves (by simpa using hknown) .realtime last.1
        rw [hwrite]
        exact ih _ _ (agrees_realtime (agrees_queue h hrest) rfl blueWork hlatest)

theorem agrees_block (h : Agrees follows cursor base done s) (syncedCapacity : ℕ) (header : CompactHeader) :
    Ends (Excused done) (Agrees follows cursor base done)
      (handleProcessedBlock syncedCapacity header s) := by
  unfold handleProcessedBlock
  dsimp only
  split
  · exact agrees_blocks h _
  · next id last hstate =>
    generalize insertBlock _ header = blocks
    have hblocks : Agrees follows cursor base done { s with processor :=
        { s.processor with
          processedBlocks := blocks
          syncState := .synced id last } } := by
      rw [← hstate]
      exact agrees_blocks h blocks
    exact (agrees_drain _ _ _ hblocks).map fun p hp => hp
  · next last id target queue hstate =>
    generalize insertBlock _ header = blocks
    have hblocks := agrees_blocks h blocks
    split
    · exact hblocks
    · next c =>
      split
      · exact hblocks
      · next hknown =>
        refine agrees_handleAnswer ?_ (by simpa using hknown)
        rw [← hstate]
        exact hblocks

end

end KaChatIndexer.ChainHandshake
