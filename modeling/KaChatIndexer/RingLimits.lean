import KaChatIndexer.KaText
import KaChatIndexer.SlidingWindow

/-!
# The ring limiter

Rings per caller wallet and per callee address in a sliding minute. The queues are trimmed lazily and
pruned past a size; an answer depends on the allowed calls alone.
-/
namespace KaChatIndexer.RingLimits
open KaText SlidingWindow

def ringWindowMs : ℕ := 60000

def maxRingsPerCaller : ℕ := 20

def maxRingsPerCallee : ℕ := 30

def ringLimiterPruneAt : ℕ := 10000

structure RingLimiter where
  byCaller : Queues Text
  byCallee : Queues Text

def RingLimiter.new : RingLimiter := ⟨∅, ∅⟩

structure Call where
  caller : Text
  callee : Text
  nowMs : ℕ
  deriving DecidableEq

def prune (cutoff : ℕ) (m : Queues Text) : Queues Text :=
  if ringLimiterPruneAt < m.keys.length then retain cutoff m else m

/-- Both queues are trimmed and put back; the new time is added to both or to none. -/
def allow (s : RingLimiter) (c : Call) : RingLimiter × Bool :=
  let cutoff := c.nowMs - ringWindowMs
  let s : RingLimiter := ⟨prune cutoff s.byCaller, prune cutoff s.byCallee⟩
  let callerTimes := recent cutoff (times s.byCaller c.caller)
  let s : RingLimiter := { s with byCaller := s.byCaller.insert c.caller callerTimes }
  if maxRingsPerCaller ≤ callerTimes.length then (s, false)
  else
    let calleeTimes := recent cutoff (times s.byCallee c.callee)
    let s : RingLimiter := { s with byCallee := s.byCallee.insert c.callee calleeTimes }
    if maxRingsPerCallee ≤ calleeTimes.length then (s, false)
    else
      (⟨s.byCaller.insert c.caller (recent cutoff (times s.byCaller c.caller) ++ [c.nowMs]),
        s.byCallee.insert c.callee (calleeTimes ++ [c.nowMs])⟩, true)

/-! ## Runs -/

def answers (s : RingLimiter) : List Call → List Bool
  | [] => []
  | c :: rest => (allow s c).2 :: answers (allow s c).1 rest

def stateAfter (s : RingLimiter) (calls : List Call) : RingLimiter :=
  calls.foldl (fun s c => (allow s c).1) s

/-- The calls of a run that were allowed. -/
def allowed (s : RingLimiter) : List Call → List Call
  | [] => []
  | c :: rest =>
    if (allow s c).2 then c :: allowed (allow s c).1 rest else allowed (allow s c).1 rest

/-- The answer to a call after others. -/
def answer (before : List Call) (c : Call) : Bool := (allow (stateAfter .new before) c).2

/-! ## The plain count -/

/-- How many of the logged calls, of those that the test takes, are of the last minute. -/
def ringsOf (same : Call → Bool) (log : List Call) (nowMs : ℕ) : ℕ :=
  (log.filter fun e => same e && decide (nowMs < e.nowMs + ringWindowMs)).length

/-- The rings of the last minute are under both limits. -/
def Permitted (log : List Call) (c : Call) : Prop :=
  ringsOf (fun e => e.caller = c.caller) log c.nowMs < maxRingsPerCaller ∧
    ringsOf (fun e => e.callee = c.callee) log c.nowMs < maxRingsPerCallee

/-- Every answer is the plain count's, and a refused call changes no later answer. -/
structure Exact (calls : List Call) : Prop where
  counted : ∀ before c rest, calls = before ++ c :: rest →
    (answer before c = true ↔ Permitted (allowed .new before) c)
  refused : ∀ before c rest, calls = before ++ c :: rest → answer before c = false →
    answers (stateAfter .new (before ++ [c])) rest = answers (stateAfter .new before) rest

/-! ## The invariant -/

def callerLog (log : List Call) : List (Text × ℕ) := log.map fun e => (e.caller, e.nowMs)

def calleeLog (log : List Call) : List (Text × ℕ) := log.map fun e => (e.callee, e.nowMs)

/-- Both maps say of the time after the cutoff what the log of allowed calls says. -/
structure Tracked (s : RingLimiter) (log : List Call) (cutoff : ℕ) : Prop where
  byCaller : Tracks s.byCaller (callerLog log) cutoff
  byCallee : Tracks s.byCallee (calleeLog log) cutoff

/-- What the limiter makes of its log: the calls that its cutoff does not trim. -/
def Admits (log : List Call) (c : Call) : Prop :=
  (logged (callerLog log) (c.nowMs - ringWindowMs) c.caller).length < maxRingsPerCaller ∧
    (logged (calleeLog log) (c.nowMs - ringWindowMs) c.callee).length < maxRingsPerCallee

instance (log : List Call) (c : Call) : Decidable (Admits log c) := inferInstanceAs (Decidable (_ ∧ _))

theorem tracked_new (cutoff : ℕ) : Tracked .new [] cutoff :=
  ⟨tracks_empty cutoff, tracks_empty cutoff⟩

theorem Tracked.later {s : RingLimiter} {log : List Call} {cutoff cutoff' : ℕ}
    (h : Tracked s log cutoff) (hle : cutoff ≤ cutoff') : Tracked s log cutoff' :=
  ⟨h.byCaller.later hle, h.byCallee.later hle⟩

theorem tracks_prune {m : Queues Text} {log : List (Text × ℕ)} {cutoff : ℕ}
    (h : Tracks m log cutoff) : Tracks (prune cutoff m) log cutoff := by
  unfold prune
  split
  · exact h.retain
  · exact h

theorem callerLog_append (log : List Call) (c : Call) :
    callerLog (log ++ [c]) = callerLog log ++ [(c.caller, c.nowMs)] := by
  simp [callerLog]

theorem calleeLog_append (log : List Call) (c : Call) :
    calleeLog (log ++ [c]) = calleeLog log ++ [(c.callee, c.nowMs)] := by
  simp [calleeLog]

/-- One call: the answer is the log's, and the log grows by the call or stays. -/
theorem allow_spec {s : RingLimiter} {log : List Call} {c : Call}
    (h : Tracked s log (c.nowMs - ringWindowMs)) (hlog : ∀ e ∈ log, e.nowMs ≤ c.nowMs) :
    (allow s c).2 = decide (Admits log c) ∧
      Tracked (allow s c).1 (if Admits log c then log ++ [c] else log) (c.nowMs - ringWindowMs) := by
  have hcaller := tracks_prune h.byCaller
  have hcallee := tracks_prune h.byCallee
  have hcallerTimes := hcaller.counted c.caller
  have hcalleeTimes := hcallee.counted c.callee
  have hcallerPast : ∀ e ∈ callerLog log, e.2 ≤ c.nowMs := by
    intro e he
    obtain ⟨e', he', rfl⟩ := List.mem_map.mp he
    exact hlog e' he'
  have hcalleePast : ∀ e ∈ calleeLog log, e.2 ≤ c.nowMs := by
    intro e he
    obtain ⟨e', he', rfl⟩ := List.mem_map.mp he
    exact hlog e' he'
  have hcallerTrimmed := hcaller.trim c.caller
  unfold allow
  dsimp only
  split
  · next hfull =>
    rw [hcallerTimes] at hfull
    have hno : ¬Admits log c := fun hyes => absurd hyes.1 (not_lt.mpr hfull)
    rw [if_neg hno]
    exact ⟨(decide_eq_false hno).symm, hcallerTrimmed, hcallee⟩
  · next hcallerRoom =>
    rw [hcallerTimes] at hcallerRoom
    split
    · next hfull =>
      rw [hcalleeTimes] at hfull
      have hno : ¬Admits log c := fun hyes => absurd hyes.2 (not_lt.mpr hfull)
      rw [if_neg hno]
      exact ⟨(decide_eq_false hno).symm, hcallerTrimmed, hcallee.trim c.callee⟩
    · next hcalleeRoom =>
      rw [hcalleeTimes] at hcalleeRoom
      have hyes : Admits log c := ⟨not_le.mp hcallerRoom, not_le.mp hcalleeRoom⟩
      rw [if_pos hyes]
      refine ⟨(decide_eq_true hyes).symm, ?_, ?_⟩
      · rw [callerLog_append]
        exact hcallerTrimmed.push c.caller hcallerPast
      · rw [calleeLog_append]
        simpa only [AList.insert_insert] using hcallee.push c.callee hcalleePast

/-! ## Whole runs -/

/-- The answers of the log alone. -/
def logAnswers (log : List Call) : List Call → List Bool
  | [] => []
  | c :: rest => decide (Admits log c) :: logAnswers (if Admits log c then log ++ [c] else log) rest

/-- The log after more calls. -/
def logAfter (log : List Call) : List Call → List Call
  | [] => log
  | c :: rest => logAfter (if Admits log c then log ++ [c] else log) rest

/-- Times do not decrease, and start after those of the log. -/
def Ordered (log : List Call) (calls : List Call) : Prop :=
  (log ++ calls).Pairwise fun e c => e.nowMs ≤ c.nowMs

theorem Ordered.past {log rest : List Call} {c : Call} (h : Ordered log (c :: rest)) :
    ∀ e ∈ log, e.nowMs ≤ c.nowMs :=
  fun e he => (List.pairwise_append.mp h).2.2 e he c List.mem_cons_self

theorem Ordered.next {log rest : List Call} {c : Call} (h : Ordered log (c :: rest)) :
    Ordered (if Admits log c then log ++ [c] else log) rest := by
  split
  · rwa [Ordered, List.append_assoc, List.singleton_append]
  · exact h.sublist ((List.Sublist.refl log).append (List.sublist_cons_self c rest))

theorem answers_eq {s : RingLimiter} {log calls : List Call} {cutoff : ℕ} (h : Tracked s log cutoff)
    (hordered : Ordered log calls) (hcutoff : ∀ c ∈ calls, cutoff ≤ c.nowMs - ringWindowMs) :
    answers s calls = logAnswers log calls := by
  induction calls generalizing s log cutoff with
  | nil => rfl
  | cons c rest ih =>
    obtain ⟨hanswer, hnext⟩ := allow_spec (h.later (hcutoff c List.mem_cons_self)) hordered.past
    have hrest : ∀ d ∈ rest, c.nowMs ≤ d.nowMs :=
      (List.pairwise_cons.mp (List.pairwise_append.mp hordered).2.1).1
    rw [answers, logAnswers, hanswer, ih hnext hordered.next fun d hd => by have := hrest d hd; omega]

/-- After a run the maps are those of the log, which is the list of the allowed calls. -/
theorem tracked_run {s : RingLimiter} {log calls : List Call} {cutoff : ℕ} (h : Tracked s log cutoff)
    (hordered : Ordered log calls) (hcutoff : ∀ c ∈ calls, cutoff ≤ c.nowMs - ringWindowMs) :
    log ++ allowed s calls = logAfter log calls ∧
      ∃ cutoff', Tracked (stateAfter s calls) (logAfter log calls) cutoff' ∧
        ∀ now, (∀ c ∈ calls, c.nowMs ≤ now) → cutoff ≤ now - ringWindowMs →
          cutoff' ≤ now - ringWindowMs := by
  induction calls generalizing s log cutoff with
  | nil => exact ⟨List.append_nil log, cutoff, h, fun _ _ hle => hle⟩
  | cons c rest ih =>
    obtain ⟨hanswer, hnext⟩ := allow_spec (h.later (hcutoff c List.mem_cons_self)) hordered.past
    have hrest : ∀ d ∈ rest, c.nowMs ≤ d.nowMs :=
      (List.pairwise_cons.mp (List.pairwise_append.mp hordered).2.1).1
    obtain ⟨hallowed, cutoff', htracked, hlater⟩ := ih hnext hordered.next fun d hd => by
      have := hrest d hd
      omega
    refine ⟨?_, cutoff', htracked, fun now hnow _ => hlater now
      (fun d hd => hnow d (List.mem_cons_of_mem c hd)) ?_⟩
    · rw [logAfter, ← hallowed, allowed, hanswer]
      by_cases hadmits : Admits log c
      · simp [hadmits]
      · simp [hadmits]
    · have := hnow c List.mem_cons_self
      omega

theorem allowed_sublist (s : RingLimiter) (calls : List Call) : (allowed s calls).Sublist calls := by
  induction calls generalizing s with
  | nil => exact List.Sublist.refl _
  | cons c calls ih =>
    rw [allowed]
    split
    · exact (ih _).cons_cons c
    · exact (ih _).cons c

/-- A run from the start, and what a call after it finds. -/
theorem tracked_before {before rest : List Call} {c : Call}
    (h : (before ++ c :: rest).Pairwise fun e d => e.nowMs ≤ d.nowMs) :
    Tracked (stateAfter .new before) (allowed .new before) (c.nowMs - ringWindowMs) ∧
      Ordered (allowed .new before) (c :: rest) := by
  obtain ⟨hbefore, hafter, hcross⟩ := List.pairwise_append.mp h
  have hstart : Ordered [] before := hbefore
  obtain ⟨hlog, cutoff', htracked, hlater⟩ :=
    tracked_run (tracked_new 0) hstart fun _ _ => Nat.zero_le _
  rw [List.nil_append] at hlog
  rw [← hlog] at htracked
  refine ⟨htracked.later (hlater c.nowMs (fun e he => hcross e he c List.mem_cons_self)
    (Nat.zero_le _)), ?_⟩
  exact h.sublist ((allowed_sublist _ _).append (List.Sublist.refl _))

/-- A refused call leaves the log, so every later answer, as it was. -/
theorem refused_same {before rest : List Call} {c : Call}
    (h : (before ++ c :: rest).Pairwise fun e d => e.nowMs ≤ d.nowMs) (hrefused : answer before c = false) :
    answers (stateAfter .new (before ++ [c])) rest = answers (stateAfter .new before) rest := by
  obtain ⟨htracked, hordered⟩ := tracked_before h
  obtain ⟨hanswer, hnext⟩ := allow_spec htracked hordered.past
  have hno : ¬Admits (allowed .new before) c := of_decide_eq_false (hanswer.symm.trans hrefused)
  rw [if_neg hno] at hnext
  have hordered' : Ordered (allowed .new before) rest := by
    have := hordered.next
    rwa [if_neg hno] at this
  have hrest : ∀ d ∈ rest, c.nowMs ≤ d.nowMs :=
    (List.pairwise_cons.mp (List.pairwise_append.mp hordered).2.1).1
  have hcutoff : ∀ d ∈ rest, c.nowMs - ringWindowMs ≤ d.nowMs - ringWindowMs := fun d hd => by
    have := hrest d hd
    omega
  have hstate : stateAfter .new (before ++ [c]) = (allow (stateAfter .new before) c).1 := by
    simp [stateAfter]
  rw [hstate, answers_eq hnext hordered' hcutoff, answers_eq htracked hordered' hcutoff]

/-! ## The window at the start of the clock -/

/-- A call at time 0 has no call after it, in the clock's first minute, of its caller or its callee:
the cutoff of that minute is 0, and a time that is not past the cutoff is trimmed. -/
def Apart (e c : Call) : Prop :=
  e.nowMs = 0 → c.nowMs < ringWindowMs → e.caller ≠ c.caller ∧ e.callee ≠ c.callee

theorem logged_length (key : Call → Text) (log : List Call) (c : Call)
    (hzero : ∀ e ∈ log, e.nowMs = 0 → c.nowMs < ringWindowMs → key e ≠ key c) :
    (logged (log.map fun e => (key e, e.nowMs)) (c.nowMs - ringWindowMs) (key c)).length =
      ringsOf (fun e => key e = key c) log c.nowMs := by
  rw [logged, List.length_map, List.filter_map, List.length_map, ringsOf]
  refine congrArg List.length (List.filter_congr fun e he => ?_)
  rw [Function.comp_apply, ← Bool.decide_and, decide_eq_decide]
  refine and_congr_right fun hkey => ?_
  have hne : e.nowMs = 0 → ¬c.nowMs < ringWindowMs := fun h0 hlt => hzero e he h0 hlt hkey
  dsimp only
  omega

theorem permitted_iff {log : List Call} {c : Call} (h : ∀ e ∈ log, Apart e c) :
    Permitted log c ↔ Admits log c := by
  rw [Permitted, Admits, callerLog, calleeLog,
    logged_length (·.caller) log c fun e he h0 hlt => (h e he h0 hlt).1,
    logged_length (·.callee) log c fun e he h0 hlt => (h e he h0 hlt).2]

/-- In a run whose calls at time 0 are apart from those of the first minute, the limiter is the plain
count. -/
theorem exact_run {calls : List Call} (hsorted : calls.Pairwise fun e c => e.nowMs ≤ c.nowMs)
    (hapart : calls.Pairwise Apart) : Exact calls := by
  refine ⟨fun before c rest hsplit => ?_, fun before c rest hsplit hrefused => ?_⟩
  · subst hsplit
    obtain ⟨htracked, hordered⟩ := tracked_before hsorted
    obtain ⟨hanswer, -⟩ := allow_spec htracked hordered.past
    have hlog : ∀ e ∈ allowed .new before, Apart e c := fun e he =>
      (List.pairwise_append.mp hapart).2.2 e ((allowed_sublist _ _).subset he) c List.mem_cons_self
    rw [permitted_iff hlog, answer, hanswer, decide_eq_true_iff]
  · subst hsplit
    exact refused_same hsorted hrefused

/-- A caller rings a callee, at one time over and over. -/
def sampleCalls (n nowMs : ℕ) : List Call := List.replicate n ⟨['a'], ['b'], nowMs⟩

/-- Of 21 calls a minute after the clock's start, the last is refused; later it would be allowed. -/
theorem sample_exact : Exact (sampleCalls 21 60000) :=
  exact_run (by decide +kernel) (List.pairwise_iff_forall_sublist.mpr fun {e c} h h0 => by
    have he : e ∈ sampleCalls 21 60000 := h.subset List.mem_cons_self
    rw [(List.mem_replicate.mp he).2] at h0
    cases h0)

/-- At the clock's start no time is ever past the cutoff, so the 21st call is allowed too. -/
theorem unlimited_at_zero : (sampleCalls 21 0).Pairwise (fun e c => e.nowMs ≤ c.nowMs) ∧
    ¬Exact (sampleCalls 21 0) := by
  refine ⟨by decide +kernel, fun h => ?_⟩
  have hpermitted := (h.counted (sampleCalls 20 0) ⟨['a'], ['b'], 0⟩ [] (by decide)).mp (by decide +kernel)
  exact absurd hpermitted.1 (by decide +kernel)

end KaChatIndexer.RingLimits
