import KaChatIndexer.ChatSlots
import KaChatIndexer.GapFills
import KaChatIndexer.PastCover

/-!
# No block is left out

What is in the past of an announced sink is stored or in a stored gap, whatever fillers, connections
and crashes do. Left out can be what is as old as a pruning point, and what neither was announced nor
streamed before a block came that has it in its past.
-/
namespace KaChatIndexer.GapCoverage
open ByteStrings ChatRows ChatSlots GapFills PastCover Fallible

/-! ## What was announced -/

def sinkOf : Event → Option Hash
  | .notification (.connected sink _) => some sink
  | _ => none

def announced (done : List Event) : List Hash := done.filterMap sinkOf

def blockOf : Event → Option Hash
  | .notification (.notification block) => some block
  | _ => none

def streamed (done : List Event) : List Hash := done.filterMap blockOf

/-- In the past of a pruning point that was told. -/
def Old (past : Hash → List Hash) (done : List Event) (x : Hash) : Prop :=
  ∃ sink pp, .notification (.connected sink pp) ∈ done ∧ x ∈ past pp

/-- A block came with `x` in its past, which was neither announced nor streamed before. -/
def Missed (past : Hash → List Hash) (done : List Event) (x : Hash) : Prop :=
  ∃ before block after, done = before ++ .notification (.notification block) :: after ∧
    x ∈ past block ∧ x ≠ block ∧ x ∉ streamed before ∧ ∀ sink ∈ announced before, x ∉ past sink

def Kept (past : Hash → List Hash) (done : List Event) (d : Disk) (x : Hash) : Prop :=
  x ∈ d.handled ∨ Old past done x ∨ Missed past done x

def Stored (d : Disk) (lower upper : Hash) : Prop := get d.gaps upper = some lower

def PastStored (past : Hash → List Hash) (done : List Event) (d : Disk) (upper : Hash) : Prop :=
  PastCovered (fun x y => x ∈ past y) (Kept past done d) (Stored d) upper

/-! ## What a filler does -/

/-- What becomes of a filler, and what it sends. -/
inductive Moves (fits : Hash → List Hash → Prop) (f : BlockGapFiller) :
    BlockGapFiller → List GapFillingProgress → Prop
  | asks (hphase : f.phase = .polling) : Moves fits f { f with phase := .waiting } []
  | refused (hphase : f.phase = .waiting) : Moves fits f { f with phase := .polling } []
  | crashed (hphase : f.phase = .waiting) : Moves fits f { f with phase := .crashed } []
  | update {blocks : List Hash} {last : Hash} (hphase : f.phase = .waiting)
      (hfits : fits f.fromBlock blocks) (hlast : blocks.getLast? = some last) :
      Moves fits f { f with fromBlock := last, phase := .polling } [.update f.targetBlock blocks]
  | finished {blocks : List Hash} (hphase : f.phase = .waiting) (hfits : fits f.fromBlock blocks)
      (hmem : f.targetBlock ∈ blocks) :
      Moves fits f { f with phase := .ended } [.finished f.targetBlock blocks]
  | interrupted (hphase : f.phase = .polling) :
      Moves fits f { f with phase := .ended } [.interrupted f.targetBlock]
  | error (hphase : f.phase = .waiting) :
      Moves fits f { f with phase := .ended } [.error f.targetBlock]

/-- One filler moves, or none. -/
def Acts (fits : Hash → List Hash → Prop) (s s' : System) : Prop :=
  s' = s ∨ ∃ i f f' sent, s.fillers[i]? = some f ∧ Moves fits f f' sent ∧
    s' = { s with
      fillers := s.fillers.set i f'
      gapResults := s.gapResults ++ sent }

section
variable {fits : Hash → List Hash → Prop} {s : System} {i : ℕ} {f f' : BlockGapFiller}
  {sent : List GapFillingProgress}

theorem acts_silent (hget : s.fillers[i]? = some f) (h : Moves fits f f' []) :
    Acts fits s { s with fillers := s.fillers.set i f' } :=
  .inr ⟨i, f, f', [], hget, h, by rw [List.append_nil]⟩

theorem acts_poll (i : ℕ) (s : System) : Acts fits s (poll i s) := by
  unfold poll
  split
  · exact .inl rfl
  · next f hget =>
    split
    · next hphase =>
      split
      · exact acts_silent hget (.asks hphase)
      · exact .inr ⟨i, f, _, _, hget, .interrupted hphase, rfl⟩
      · exact .inr ⟨i, f, _, _, hget, .interrupted hphase, rfl⟩
    · exact .inl rfl

theorem acts_answer {blocks : List Hash} (hfits : ∀ f, s.fillers[i]? = some f → f.phase = .waiting →
    fits f.fromBlock blocks) : Acts fits s (answer i blocks s) := by
  unfold answer
  split
  · exact .inl rfl
  · next f hget =>
    split
    · next hphase =>
      split
      · next hmem => exact .inr ⟨i, f, _, _, hget, .finished hphase (hfits f hget hphase) hmem, rfl⟩
      · split
        · exact acts_silent hget (.crashed hphase)
        · next hlast => exact .inr ⟨i, f, _, _, hget, .update hphase (hfits f hget hphase) hlast, rfl⟩
    · exact .inl rfl

theorem acts_rpcError (i : ℕ) (s : System) : Acts fits s (rpcError i s) := by
  unfold rpcError
  split
  · exact .inl rfl
  · next f hget =>
    split
    · next hphase => exact .inr ⟨i, f, _, _, hget, .error hphase, rfl⟩
    · exact .inl rfl

theorem acts_refuse (i : ℕ) (s : System) : Acts fits s (refuse i s) := by
  unfold refuse
  split
  · exact .inl rfl
  · next f hget =>
    split
    · next hphase => exact acts_silent hget (.refused hphase)
    · exact .inl rfl

theorem Moves.live (h : Moves fits f f' sent) :
    f.phase = .polling ∨ f.phase = .waiting := by
  cases h with
  | asks hphase | interrupted hphase => exact .inl hphase
  | refused hphase | crashed hphase | update hphase | finished hphase | error hphase => exact .inr hphase

theorem Moves.sameTarget (h : Moves fits f f' sent) : f'.targetBlock = f.targetBlock := by
  cases h <;> rfl

/-- A filler without its interrupt. -/
def bare (f : BlockGapFiller) : BlockGapFiller := { f with interrupt := .empty }

/-- Nothing is stored or sent, and no filler goes on. -/
structure Alike (s s' : System) : Prop where
  disk : s'.disk = s.disk
  fillers : s'.fillers.map bare = s.fillers.map bare
  results : s'.gapResults = s.gapResults
  first : s'.processor.hasFirstConnect = s.processor.hasFirstConnect
  last : s'.processor.lastProcessedBlock = s.processor.lastProcessedBlock

theorem bare_modify {g : BlockGapFiller → BlockGapFiller} (hg : ∀ f, bare (g f) = bare f)
    (i : ℕ) (fillers : List BlockGapFiller) : (fillers.modify i g).map bare = fillers.map bare := by
  induction fillers generalizing i with
  | nil => cases i <;> rfl
  | cons f fillers ih =>
    cases i with
    | zero => simp [hg]
    | succ i => simpa using ih i

theorem bare_drop (i : ℕ) (fillers : List BlockGapFiller) :
    (dropInterrupt i fillers).map bare = fillers.map bare := by
  refine bare_modify (fun f => ?_) i fillers
  split <;> rfl

theorem alike_interrupt (s : System) : Alike s (interruptFillers s) := by
  refine ⟨rfl, ?_, rfl, rfl, rfl⟩
  unfold interruptFillers
  generalize s.fillers = fillers
  induction s.processor.gapsFillers generalizing fillers with
  | nil => rfl
  | cons row rows ih =>
    have hsent : (sendInterrupt row.2 fillers).map bare = fillers.map bare :=
      bare_modify (g := fun f => { f with interrupt := .sent }) (fun f => rfl) row.2 fillers
    exact (ih _).trans hsent

theorem alike_removed (target : Hash) (s : System) : Alike s (removeFiller target s) := by
  unfold removeFiller
  split
  · exact ⟨rfl, rfl, rfl, rfl, rfl⟩
  · exact ⟨rfl, bare_drop _ _, rfl, rfl, rfl⟩

/-- A filler for a gap. -/
def newFiller (g : BlockGap) : BlockGapFiller := ⟨g.toBlock, g.fromBlock, .polling, .empty⟩

theorem spawned (gaps : List BlockGap) (s : System) : ∃ fillers more,
    fillers.map bare = s.fillers.map bare ++ gaps.map newFiller ∧
      gaps.foldl spawnFiller s = { s with
        processor := { s.processor with gapsFillers := more }
        fillers := fillers } := by
  induction gaps generalizing s with
  | nil => exact ⟨s.fillers, _, by simp, rfl⟩
  | cons g gaps ih =>
    obtain ⟨fillers, more, hfillers, heq⟩ := ih (spawnFiller s g)
    refine ⟨fillers, more, hfillers.trans ?_, heq⟩
    have hone : (spawnFiller s g).fillers.map bare = s.fillers.map bare ++ [newFiller g] := by
      unfold spawnFiller
      dsimp only
      split
      · simp [newFiller, bare]
      · rw [List.map_append, bare_drop]
        rfl
    rw [hone, List.append_assoc]
    rfl

end

/-! ## Fillers at work -/

/-- Where the live fillers of a gap are. -/
def liveOf (target : Hash) (f : BlockGapFiller) : List Hash :=
  if f.targetBlock = target ∧ (f.phase = .polling ∨ f.phase = .waiting) then [f.fromBlock] else []

def live (target : Hash) (fillers : List BlockGapFiller) : List Hash := fillers.flatMap (liveOf target)

/-- The lower end of a gap after a result. -/
def movedBy (target : Hash) (lower : Option Hash) : GapFillingProgress → Option Hash
  | .update target' blocks => if target' = target then blocks.getLast? else lower
  | .finished target' _ => if target' = target then none else lower
  | .interrupted _ | .error _ => lower

/-- A result is an answer for the lower end of its gap. -/
def Fits (past : Hash → List Hash) (target : Hash) (lower : Option Hash) : GapFillingProgress → Prop
  | .update target' blocks => target' = target → ∃ f, lower = some f ∧ blocks ≠ [] ∧
    Topological (fun x y => x ∈ past y) f blocks
  | .finished target' blocks => target' = target → ∃ f, lower = some f ∧ target ∈ blocks ∧
    Topological (fun x y => x ∈ past y) f blocks
  | .interrupted _ | .error _ => True

/-- The results go on from one another, from one lower end to the other. -/
inductive Line (past : Hash → List Hash) (target : Hash) :
    Option Hash → List GapFillingProgress → Option Hash → Prop
  | nil (lower : Option Hash) : Line past target lower [] lower
  | cons {lower upper : Option Hash} {m : GapFillingProgress} {rest : List GapFillingProgress}
      (hfits : Fits past target lower m) (hrest : Line past target (movedBy target lower m) rest upper) :
      Line past target lower (m :: rest) upper

/-- There is one filler at most, and it is where the results end. -/
def Alone (lower : Option Hash) (live : List Hash) : Prop := live = [] ∨ ∃ f, lower = some f ∧ live = [f]

def AtWork (past : Hash → List Hash) (gaps : Partition Hash Hash) (fillers : List BlockGapFiller)
    (results : List GapFillingProgress) (target : Hash) : Prop :=
  ∃ lower, Line past target (get gaps target) results lower ∧ Alone lower (live target fillers)

section
variable {past : Hash → List Hash} {target : Hash} {lower middle upper : Option Hash}
  {fillers fillers' : List BlockGapFiller} {i : ℕ} {f f' : BlockGapFiller}
  {results sent : List GapFillingProgress}

theorem line_append
    (h : Line past target lower results middle) (hsent : Line past target middle sent upper) :
    Line past target lower (results ++ sent) upper := by
  induction h with
  | nil lower => exact hsent
  | cons hfits _ ih => exact .cons hfits (ih hsent)

theorem live_congr (h : fillers'.map bare = fillers.map bare) :
    live target fillers' = live target fillers := by
  have hbare (l : List BlockGapFiller) : live target (l.map bare) = live target l := by
    rw [live, List.flatMap_map]
    rfl
  rw [← hbare, h, hbare]

/-- The one live filler of the gap changes, or that of another gap. -/
theorem live_set (target : Hash) (hget : fillers[i]? = some f) (f' : BlockGapFiller) : ∃ before after,
      live target fillers = before ++ liveOf target f ++ after ∧
        live target (fillers.set i f') = before ++ liveOf target f' ++ after := by
  obtain ⟨hlt, hf⟩ := List.getElem?_eq_some_iff.mp hget
  refine ⟨live target (fillers.take i), live target (fillers.drop (i + 1)), ?_, ?_⟩
  · conv_lhs => rw [← List.take_append_drop i fillers, List.drop_eq_getElem_cons hlt, hf]
    simp [live]
  · rw [List.set_eq_take_append_cons_drop, if_pos hlt]
    simp [live]

theorem alone_set
    (hget : fillers[i]? = some f) (hphase : f.phase = .polling ∨ f.phase = .waiting) (f' : BlockGapFiller)
    (h : Alone lower (live f.targetBlock fillers)) :
    lower = some f.fromBlock ∧ live f.targetBlock (fillers.set i f') = liveOf f.targetBlock f' := by
  obtain ⟨before, after, hlive, hset⟩ := live_set f.targetBlock hget f'
  have hone : liveOf f.targetBlock f = [f.fromBlock] := if_pos ⟨rfl, hphase⟩
  rcases h with hnone | ⟨g, hlower, hg⟩
  · simp [hnone, hone] at hlive
  · rw [hg, hone] at hlive
    have hlength := congrArg List.length hlive
    simp only [List.length_append, List.length_cons, List.length_nil] at hlength
    obtain rfl : before = [] := List.eq_nil_of_length_eq_zero (by omega)
    obtain rfl : after = [] := List.eq_nil_of_length_eq_zero (by omega)
    simp only [List.nil_append, List.append_nil, List.cons.injEq, and_true] at hlive hset
    exact ⟨hlower.trans (congrArg some hlive), hset⟩

/-- A filler goes on from where it is. -/
theorem Moves.own (h : Moves (Topological fun x y => x ∈ past y) f f' sent) :
    ∃ lower, Line past f.targetBlock (some f.fromBlock) sent lower ∧
      Alone lower (liveOf f.targetBlock f') := by
  cases h with
  | asks => exact ⟨_, .nil _, .inr ⟨_, rfl, if_pos ⟨rfl, .inr rfl⟩⟩⟩
  | refused => exact ⟨_, .nil _, .inr ⟨_, rfl, if_pos ⟨rfl, .inl rfl⟩⟩⟩
  | crashed => exact ⟨_, .nil _, .inl (by simp [liveOf])⟩
  | @update blocks last _ hfits hlast =>
    have hne : blocks ≠ [] := by
      rintro rfl
      cases hlast
    refine ⟨_, .cons (fun _ => ⟨_, rfl, hne, hfits⟩) (.nil _), .inr ⟨last, ?_, if_pos ⟨rfl, .inl rfl⟩⟩⟩
    simpa [movedBy] using hlast
  | finished _ hfits hmem =>
    exact ⟨_, .cons (fun _ => ⟨_, rfl, hmem, hfits⟩) (.nil _), .inl (by simp [liveOf])⟩
  | interrupted | error => exact ⟨_, .cons trivial (.nil _), .inl (by simp [liveOf])⟩

theorem Moves.other {fits : Hash → List Hash → Prop}
    (h : Moves fits f f' sent) (hne : f.targetBlock ≠ target)
    (lower : Option Hash) : Line past target lower sent lower := by
  have hline {m : GapFillingProgress} (hfits : Fits past target lower m)
      (hmoved : movedBy target lower m = lower) : Line past target lower [m] lower := by
    refine .cons hfits ?_
    rw [hmoved]
    exact .nil lower
  cases h with
  | asks | refused | crashed => exact .nil lower
  | update | finished => exact hline (fun heq => absurd heq hne) (if_neg hne)
  | interrupted | error => exact hline trivial rfl

theorem atWork_moves {gaps : Partition Hash Hash}
    (h : ∀ target, AtWork past gaps fillers results target) (hget : fillers[i]? = some f)
    (hmoves : Moves (Topological fun x y => x ∈ past y) f f' sent) (target : Hash) :
    AtWork past gaps (fillers.set i f') (results ++ sent) target := by
  obtain ⟨lower, hline, hlive⟩ := h target
  by_cases heq : f.targetBlock = target
  · subst heq
    obtain ⟨rfl, hset⟩ := alone_set hget hmoves.live f' hlive
    obtain ⟨upper, hsent, halone⟩ := hmoves.own
    exact ⟨upper, line_append hline hsent, hset ▸ halone⟩
  · have hnone (g : BlockGapFiller) (hg : g.targetBlock = f.targetBlock) : liveOf target g = [] :=
      if_neg fun h => heq (hg.symm.trans h.1)
    obtain ⟨before, after, hbefore, hset⟩ := live_set target hget f'
    refine ⟨lower, line_append hline (hmoves.other heq lower), ?_⟩
    rwa [hset, hnone f' hmoves.sameTarget, ← hnone f rfl, ← hbefore]

end

/-! ## What is stored -/

theorem mem_handleBlock (block : Hash) (d : Disk) (x : Hash) :
    x ∈ (handleBlock block d).handled ↔ x ∈ d.handled ∨ x = block := by
  unfold handleBlock
  split
  · next hmem => exact ⟨.inl, fun hx => hx.elim id (· ▸ hmem)⟩
  · simp

@[simp] theorem handleBlock_gaps (block : Hash) (d : Disk) : (handleBlock block d).gaps = d.gaps := by
  unfold handleBlock
  split <;> rfl

@[simp] theorem handleBlock_cursor (block : Hash) (d : Disk) :
    (handleBlock block d).latestBlockCursor = d.latestBlockCursor := by
  unfold handleBlock
  split <;> rfl

/-- What the blocks of an answer do. -/
structure Filled (target : Hash) (finishes : Bool) (blocks : List Hash) (d d' : Disk) : Prop where
  handled : ∀ x, x ∈ d'.handled ↔ x ∈ d.handled ∨ x ∈ blocks
  gaps : ∀ upper, get d'.gaps upper = if upper = target ∧ blocks ≠ [] then
    (if finishes then none else blocks.getLast?) else get d.gaps upper
  cursor : d'.latestBlockCursor = d.latestBlockCursor
  nodup : (keys d.gaps).Nodup → (keys d'.gaps).Nodup

theorem nodup_keys_erase {p : Partition Hash Hash} (h : (keys p).Nodup) (k : Hash) :
    (keys (erase p k)).Nodup := h.sublist (List.filter_sublist.map _)

theorem filled (target : Hash) (finishes : Bool) (blocks : List Hash) (d : Disk) :
    Filled target finishes blocks d (fillBlocks target finishes blocks d) := by
  induction blocks generalizing d with
  | nil => exact ⟨by simp [fillBlocks], by simp [fillBlocks], rfl, fun h => h⟩
  | cons block blocks ih =>
    cases blocks with
    | nil =>
      refine ⟨?_, ?_, ?_, fun h => ?_⟩ <;> cases finishes
      all_goals simp [fillBlocks, insertGap, mem_handleBlock, get_put, get_erase, nodup_keys_put,
        nodup_keys_erase, *]
    | cons next blocks =>
      have hrest := ih (insertGap ⟨block, target⟩ (handleBlock block d))
      have hstep : fillBlocks target finishes (block :: next :: blocks) d =
          fillBlocks target finishes (next :: blocks)
            (insertGap ⟨block, target⟩ (handleBlock block d)) := rfl
      rw [hstep]
      refine ⟨fun x => ?_, fun upper => ?_, ?_, fun h => hrest.nodup ?_⟩
      · rw [hrest.handled]
        simp [insertGap, mem_handleBlock, or_assoc]
      · rw [hrest.gaps]
        by_cases heq : upper = target <;> simp [heq, insertGap, get_put]
      · exact hrest.cursor.trans (handleBlock_cursor block d)
      · simpa [insertGap] using nodup_keys_put h target block
section
variable {past : Hash → List Hash} {done : List Event} {d : Disk} {upper : Hash} {target : Hash}
  {finishes : Bool} {blocks : List Hash}

theorem Kept.later {x : Hash} (h : Kept past done d x) {d' : Disk}
    (hhandled : ∀ x ∈ d.handled, x ∈ d'.handled) (e : Event) : Kept past (done ++ [e]) d' x := by
  rcases h with h | ⟨sink, pp, hmem, hold⟩ | ⟨before, block, after, hdone, hmissed⟩
  · exact .inl (hhandled x h)
  · exact .inr (.inl ⟨sink, pp, List.mem_append_left _ hmem, hold⟩)
  · exact .inr (.inr ⟨before, block, after ++ [e], by simp [hdone], hmissed⟩)

/-- More is handled, and no gap is lost. -/
theorem PastStored.later (h : PastStored past done d upper) (d' : Disk)
    (hhandled : ∀ x ∈ d.handled, x ∈ d'.handled)
    (hgaps : ∀ lower upper, Stored d lower upper → Stored d' lower upper) (e : Event) :
    PastStored past (done ++ [e]) d' upper := h.mono (fun _ hx => Kept.later hx hhandled e) hgaps

/-- The blocks of an answer take a gap up, or fill it. -/
theorem PastStored.fill (h : PastStored past done d upper) (hfits : ∀ lower, Stored d lower target →
      Topological (fun x y => x ∈ past y) lower blocks ∧ (finishes = true → target ∈ blocks)) (e : Event) :
    PastStored past (done ++ [e]) (fillBlocks target finishes blocks d) upper := by
  have hfill := filled target finishes blocks d
  have hhandled (x : Hash) (hx : x ∈ d.handled) : x ∈ (fillBlocks target finishes blocks d).handled :=
    (hfill.handled x).mpr (.inl hx)
  intro x hx
  refine (h x hx).replace (fun x hx => Kept.later hx hhandled e) fun lower upper hstored x hbetween => ?_
  have hin (hmem : x ∈ blocks) : Covered (fun x y => x ∈ past y)
      (Kept past (done ++ [e]) (fillBlocks target finishes blocks d))
      (Stored (fillBlocks target finishes blocks d)) x := .inl (.inl ((hfill.handled x).mpr (.inr hmem)))
  by_cases hmoved : upper = target ∧ blocks ≠ []
  · obtain ⟨rfl, hblocks⟩ := hmoved
    obtain ⟨htop, hfinishes⟩ := hfits lower hstored
    cases finishes with
    | true => exact hin (htop.closes (hfinishes rfl) hbetween)
    | false =>
      obtain ⟨last, hlast⟩ : ∃ last, blocks.getLast? = some last :=
        ⟨_, List.getLast?_eq_some_getLast hblocks⟩
      rcases htop.moves hlast hbetween with hmem | hbetween
      · exact hin hmem
      · refine .inr ⟨last, upper, ?_, hbetween⟩
        rw [Stored, hfill.gaps, if_pos ⟨rfl, hblocks⟩]
        exact hlast
  · refine .inr ⟨lower, upper, ?_, hbetween⟩
    rw [Stored, hfill.gaps, if_neg hmoved]
    exact hstored

/-- What was announced, and what the last block stands for, is not lost. -/
structure Safe (past : Hash → List Hash) (done : List Event) (d : Disk) (last : Option Hash) : Prop where
  announced : ∀ sink ∈ announced done, PastStored past done d sink
  cursor : ∀ block, d.latestBlockCursor = some block → PastStored past done d block
  last : ∀ block, last = some block → d.latestBlockCursor = some block
  streamed : ∀ block ∈ streamed done, block ∈ d.handled
  nodup : (keys d.gaps).Nodup

variable {last last' : Option Hash} {d' : Disk} {e : Event}

theorem Safe.next (h : Safe past done d last)
    (hlater : ∀ upper, PastStored past done d upper → PastStored past (done ++ [e]) d' upper)
    (hhandled : ∀ x ∈ d.handled, x ∈ d'.handled)
    (hsink : ∀ sink, sinkOf e = some sink → PastStored past (done ++ [e]) d' sink)
    (hblock : ∀ block, blockOf e = some block → block ∈ d'.handled)
    (hcursor : d'.latestBlockCursor = d.latestBlockCursor)
    (hlast : ∀ block, last' = some block → last = some block)
    (hnodup : (keys d'.gaps).Nodup) : Safe past (done ++ [e]) d' last' where
  announced sink hmem := by
    rw [GapCoverage.announced, List.filterMap_append, List.mem_append] at hmem
    rcases hmem with hmem | hmem
    · exact hlater sink (h.announced sink hmem)
    · exact hsink sink (by simpa using hmem)
  cursor block hb := hlater block (h.cursor block (hcursor ▸ hb))
  last block hb := hcursor ▸ h.last block (hlast block hb)
  streamed block hmem := by
    rw [GapCoverage.streamed, List.filterMap_append, List.mem_append] at hmem
    rcases hmem with hmem | hmem
    · exact hhandled block (h.streamed block hmem)
    · exact hblock block (by simpa using hmem)
  nodup := hnodup

/-- Nothing is announced or streamed. -/
theorem Safe.same (h : Safe past done d last) (hsink : sinkOf e = none) (hblock : blockOf e = none)
    (hlast : ∀ block, last' = some block → last = some block) : Safe past (done ++ [e]) d last' :=
  h.next (fun _ hupper => hupper.later d (fun _ hx => hx) (fun _ _ hx => hx) e) (fun _ hx => hx)
    (by simp [hsink]) (by simp [hblock]) rfl hlast h.nodup

theorem Safe.fill (h : Safe past done d last) (hsink : sinkOf e = none) (hblock : blockOf e = none)
    (hlast : ∀ block, last' = some block → last = some block)
    (hfits : ∀ lower, Stored d lower target →
      Topological (fun x y => x ∈ past y) lower blocks ∧ (finishes = true → target ∈ blocks)) :
    Safe past (done ++ [e]) (fillBlocks target finishes blocks d) last' :=
  have hfill := filled target finishes blocks d
  h.next (fun _ hupper => hupper.fill hfits e) (fun x hx => (hfill.handled x).mpr (.inl hx))
    (by simp [hsink]) (by simp [hblock]) hfill.cursor hlast (hfill.nodup h.nodup)

/-- The gap up to the sink is stored. -/
theorem Safe.insert (h : Safe past done d last) {lower sink pp : Hash} (hnew : get d.gaps sink = none)
    (hlower : d.latestBlockCursor = some lower ∨ lower = pp)
    (hlast : ∀ block, last' = some block → last = some block) :
    Safe past (done ++ [.notification (.connected sink pp)]) (insertGap ⟨lower, sink⟩ d) last' := by
  have hlater (upper : Hash) (hupper : PastStored past done d upper) :
      PastStored past (done ++ [.notification (.connected sink pp)]) (insertGap ⟨lower, sink⟩ d) upper := by
    refine hupper.later (insertGap ⟨lower, sink⟩ d) (fun _ hx => hx) (fun lower' upper hstored => ?_) _
    have hne : upper ≠ sink := by
      rintro rfl
      cases hnew.symm.trans hstored
    rw [Stored, insertGap, get_put, if_neg hne]
    exact hstored
  refine h.next hlater (fun _ hx => hx) (fun sink' heq => ?_) (by simp [blockOf]) rfl hlast
    (nodup_keys_put h.nodup _ _)
  obtain rfl := Option.some.inj heq
  have hgap : Stored (insertGap ⟨lower, sink⟩ d) lower sink := by
    rw [Stored, insertGap, get_put, if_pos rfl]
  refine pastCovered_of_gap ?_ hgap
  rcases hlower with hcursor | rfl
  · exact hlater lower (h.cursor lower hcursor)
  · exact fun x hx => .inl (.inr (.inl ⟨sink, lower, by simp, hx⟩))

end

/-! ## The invariant -/

structure Covers (past : Hash → List Hash) (done : List Event) (s : System) : Prop where
  safe : Safe past done s.disk s.processor.lastProcessedBlock
  atWork : ∀ target, AtWork past s.disk.gaps s.fillers s.gapResults target
  fresh : s.processor.hasFirstConnect = false → s.fillers = [] ∧ s.gapResults = []

section
variable {past : Hash → List Hash} {done : List Event} {s s' : System} {e : Event} {target : Hash}
  {blocks : List Hash} {m : GapFillingProgress} {rest : List GapFillingProgress} {lower upper : Option Hash}

theorem start_covers (past : Hash → List Hash) : Covers past [] (start ⟨[], [], none⟩) where
  safe := by constructor <;> simp [announced, streamed, start, keys]
  atWork target := ⟨_, .nil _, .inl rfl⟩
  fresh _ := ⟨rfl, rfl⟩

theorem Alike.fresh (halike : Alike s s')
    (h : s.processor.hasFirstConnect = false → s.fillers = [] ∧ s.gapResults = [])
    (hfirst : s'.processor.hasFirstConnect = false) : s'.fillers = [] ∧ s'.gapResults = [] := by
  obtain ⟨hfillers, hresults⟩ := h (halike.first ▸ hfirst)
  have hbare := halike.fillers
  rw [hfillers] at hbare
  exact ⟨List.map_eq_nil_iff.mp hbare, halike.results.trans hresults⟩

theorem Covers.alike (h : Covers past done s) (halike : Alike s s') : Covers past done s' where
  safe := by
    rw [halike.disk, halike.last]
    exact h.safe
  atWork target := by
    rw [AtWork, halike.disk, halike.results, live_congr halike.fillers]
    exact h.atWork target
  fresh := halike.fresh h.fresh

theorem Covers.same (h : Covers past done s) (hsink : sinkOf e = none) (hblock : blockOf e = none) :
    Covers past (done ++ [e]) s :=
  ⟨h.safe.same hsink hblock fun _ hlast => hlast, h.atWork, h.fresh⟩

theorem covers_settle (h : Covers past done s) : Covers past done (settle s) := by
  unfold settle
  split
  · exact ⟨h.safe, h.atWork, h.fresh⟩
  · exact h

theorem covers_acts (h : Covers past done s) (hsink : sinkOf e = none) (hblock : blockOf e = none)
    (hacts : Acts (Topological fun x y => x ∈ past y) s s') : Covers past (done ++ [e]) s' := by
  rcases hacts with rfl | ⟨i, f, f', sent, hget, hmoves, rfl⟩
  · exact h.same hsink hblock
  · refine ⟨(h.same hsink hblock).safe, atWork_moves h.atWork hget hmoves, fun hfirst => ?_⟩
    rw [(h.fresh hfirst).1] at hget
    cases hget

/-! ## Blocks -/

theorem covers_block (h : Covers past done s) (block : Hash) :
    Covers past (done ++ [.notification (.notification block)]) (handleRealtimeBlock block s) := by
  have hhandled (x : Hash) (hx : x ∈ s.disk.handled) : x ∈ (handleBlock block s.disk).handled :=
    (mem_handleBlock block s.disk x).mpr (.inl hx)
  have hblock : block ∈ (handleBlock block s.disk).handled :=
    (mem_handleBlock block s.disk block).mpr (.inr rfl)
  have hlater (upper : Hash) (hupper : PastStored past done s.disk upper) :
      PastStored past (done ++ [.notification (.notification block)])
        (handleRealtimeBlock block s).disk upper :=
    hupper.later _ hhandled (fun lower upper hstored => by
      simpa [Stored, handleRealtimeBlock] using hstored) _
  have hsafe : Safe past (done ++ [.notification (.notification block)])
      (handleBlock block s.disk) none :=
    h.safe.next (fun upper hupper => hlater upper hupper) hhandled (by simp [sinkOf])
      (fun b hb => Option.some.inj hb ▸ hblock) (by simp) (by simp) (by simpa using h.safe.nodup)
  refine ⟨⟨hsafe.announced, fun cursor hcursor x hx => ?_, fun last hlast => hlast, hsafe.streamed,
    hsafe.nodup⟩, fun target => ?_, h.fresh⟩
  · obtain rfl := Option.some.inj hcursor
    by_cases heq : x = block
    · exact .inl (.inl (heq ▸ hblock))
    · by_cases hstreamed : x ∈ streamed done
      · exact .inl (.inl (hhandled x (h.safe.streamed x hstreamed)))
      · by_cases hannounced : ∃ sink ∈ announced done, x ∈ past sink
        · obtain ⟨sink, hsink, hpast⟩ := hannounced
          exact hlater sink (h.safe.announced sink hsink) x hpast
        · refine .inl (.inr (.inr ⟨done, block, [], rfl, hx, heq, hstreamed, ?_⟩))
          exact fun sink hsink hpast => hannounced ⟨sink, hsink, hpast⟩
  · simpa [handleRealtimeBlock] using h.atWork target

/-! ## Results -/

theorem line_head (h : Line past target lower (m :: rest) upper) :
    Fits past target lower m ∧ Line past target (movedBy target lower m) rest upper := by
  cases h with
  | cons hfits hrest => exact ⟨hfits, hrest⟩

/-- The blocks of the next result fit the gap that is stored. -/
theorem fits_next (finishes : Bool) (h : Covers past done s) (hresults : s.gapResults =
      (if finishes then .finished target blocks else .update target blocks) :: rest) :
    blocks ≠ [] ∧ ∀ lower, Stored s.disk lower target →
      Topological (fun x y => x ∈ past y) lower blocks ∧ (finishes = true → target ∈ blocks) := by
  obtain ⟨upper, hline, -⟩ := h.atWork target
  rw [hresults] at hline
  have hfits := (line_head hline).1
  cases finishes with
  | true =>
    obtain ⟨f, hf, hmem, htop⟩ := hfits rfl
    refine ⟨List.ne_nil_of_mem hmem, fun lower hstored => ?_⟩
    obtain rfl := Option.some.inj (hstored.symm.trans hf)
    exact ⟨htop, fun _ => hmem⟩
  | false =>
    obtain ⟨f, hf, hne, htop⟩ := hfits rfl
    refine ⟨hne, fun lower hstored => ?_⟩
    obtain rfl := Option.some.inj (hstored.symm.trans hf)
    exact ⟨htop, by simp⟩

/-- A result is taken, and the gap is where it says. -/
theorem covers_taken (h : Covers past done s)
    (hresults : s.gapResults = m :: rest) {d' : Disk} {processed : List Hash}
    (hsafe : Safe past (done ++ [.progress]) d' s.processor.lastProcessedBlock)
    (hgaps : ∀ target, get d'.gaps target = movedBy target (get s.disk.gaps target) m) :
    Covers past (done ++ [.progress]) { s with
      disk := d'
      gapResults := rest
      processedBlocks := processed } := by
  refine ⟨hsafe, fun target => ?_, fun hfirst => ?_⟩
  · obtain ⟨lower, hline, hlive⟩ := h.atWork target
    rw [hresults] at hline
    exact ⟨lower, hgaps target ▸ (line_head hline).2, hlive⟩
  · obtain ⟨-, hnone⟩ := h.fresh hfirst
    cases hresults.symm.trans hnone

theorem covers_filled (h : Covers past done s) (finishes : Bool) (hresults : s.gapResults =
      (if finishes then .finished target blocks else .update target blocks) :: rest) :
    Covers past (done ++ [.progress])
      (handleBlocks target finishes blocks { s with gapResults := rest }) := by
  obtain ⟨hne, hfits⟩ := fits_next finishes h hresults
  refine covers_taken h hresults (h.safe.fill rfl rfl (fun _ hlast => hlast) hfits) fun target' => ?_
  rw [(filled target finishes blocks s.disk).gaps]
  by_cases heq : target' = target
  · subst heq
    cases finishes <;> simp [movedBy, hne]
  · have hne' : ¬target = target' := fun heq' => heq heq'.symm
    cases finishes <;> simp [movedBy, heq, hne']

theorem covers_endFiller (h : Covers past done s)
    (hend : endFiller target s = .ok s') : Covers past done s' := by
  have hremoved := h.alike (alike_removed target s)
  unfold endFiller at hend
  dsimp only at hend
  split at hend
  · cases hend
  · obtain rfl := Except.ok.inj hend
    exact ⟨hremoved.safe, hremoved.atWork, hremoved.fresh⟩

theorem covers_progress (h : Covers past done s) (hresults : s.gapResults = m :: rest)
    (hprogress : handleProgress { s with gapResults := rest } m = .ok s') :
    Covers past (done ++ [.progress]) s' := by
  have hsafe := (h.same (e := .progress) rfl rfl).safe
  cases m with
  | update target blocks =>
    obtain rfl := Except.ok.inj hprogress
    exact covers_filled h false hresults
  | finished target blocks => exact covers_endFiller (covers_filled h true hresults) hprogress
  | interrupted target | error target =>
    exact covers_endFiller (covers_taken h hresults hsafe fun _ => rfl) hprogress

/-- The process dies in the midst of a result. -/
theorem covers_restart (h : Covers past done s) (n : ℕ) {d : Disk} (hd : d = s.disk ∨ d = crash n s) :
    Covers past (done ++ [.restart n]) (start d) := by
  have hstart {d : Disk} (hsafe : Safe past (done ++ [.restart n]) d none) :
      Covers past (done ++ [.restart n]) (start d) :=
    ⟨hsafe, fun target => ⟨_, .nil _, .inl rfl⟩, fun _ => ⟨rfl, rfl⟩⟩
  have hsame := hstart (h.safe.same rfl rfl (by simp))
  rcases hd with rfl | rfl
  · exact hsame
  · unfold crash
    split
    · next target blocks rest hresults =>
      refine hstart (h.safe.fill rfl rfl (by simp) fun lower hstored => ?_)
      exact ⟨(((fits_next false h hresults).2 lower hstored).1).front n, by simp⟩
    · next target blocks rest hresults =>
      refine hstart (h.safe.fill rfl rfl (by simp) fun lower hstored => ?_)
      obtain ⟨htop, hmem⟩ := (fits_next true h hresults).2 lower hstored
      refine ⟨htop.front n, fun hall => ?_⟩
      rw [List.take_of_length_le (of_decide_eq_true hall)]
      exact hmem rfl
    · exact hsame

/-! ## Connections -/

theorem get_cons {κ ν : Type} [DecidableEq κ] (row : κ × ν) (p : Partition κ ν) (k : κ) :
    get (row :: p) k = if k = row.1 then some row.2 else get p k := by
  unfold ChatRows.get
  rw [List.lookup_cons]
  by_cases heq : k = row.1
  · rw [if_pos heq, beq_iff_eq.mpr heq]
  · rw [if_neg heq, beq_false_of_ne heq]

/-- Each stored gap has one lower end. -/
theorem live_rows {gaps : Partition Hash Hash} (h : (keys gaps).Nodup) (target : Hash) :
    live target ((gaps.map fun row => ⟨row.2, row.1⟩).map newFiller) = (get gaps target).toList := by
  induction gaps with
  | nil => rfl
  | cons row gaps ih =>
    obtain ⟨hrow, hgaps⟩ := List.nodup_cons.mp h
    have hrest := ih hgaps
    rw [live] at hrest ⊢
    rw [get_cons, List.map_cons, List.map_cons, List.flatMap_cons, hrest]
    by_cases heq : target = row.1
    · subst heq
      have hnone : get gaps row.1 = none :=
        Option.not_isSome_iff_eq_none.mp fun hsome => hrow (get_isSome.mp hsome)
      simp [hnone, liveOf, newFiller]
    · have hne : ¬row.1 = target := fun h => heq h.symm
      simp [liveOf, newFiller, heq, hne]

theorem live_spawned (target : Hash) {fillers fillers' : List BlockGapFiller} {gaps : List BlockGap}
    (h : fillers'.map bare = fillers.map bare ++ gaps.map newFiller) :
    live target fillers' = live target fillers ++ live target (gaps.map newFiller) := by
  have hall : fillers'.map bare = (fillers ++ gaps.map newFiller).map bare := by
    rw [h]
    simp [bare, newFiller]
  rw [live_congr hall]
  exact List.flatMap_append

theorem alone_toList (lower : Option Hash) : Alone lower lower.toList := by
  cases lower with
  | none => exact .inl rfl
  | some f => exact .inr ⟨f, rfl, rfl⟩

/-- Where no gap is stored, no result is on its way. -/
theorem line_none {results : List GapFillingProgress}
    (h : Line past target lower results upper) (hlower : lower = none) :
    upper = none ∧ ∀ lower, Line past target lower results lower := by
  induction h with
  | nil lower => exact ⟨hlower, fun lower => .nil lower⟩
  | @cons lower upper m rest hfits _ ih =>
    subst hlower
    have hquiet (lower : Option Hash) : Fits past target lower m ∧ movedBy target lower m = lower := by
      cases m with
      | update target' blocks | finished target' blocks =>
        have hne : target' ≠ target := fun heq => by
          obtain ⟨f, hf, -⟩ := hfits heq
          cases hf
        exact ⟨fun heq => absurd heq hne, if_neg hne⟩
      | interrupted | error => exact ⟨trivial, rfl⟩
    obtain ⟨hupper, hline⟩ := ih (hquiet none).2
    refine ⟨hupper, fun lower => .cons (hquiet lower).1 ?_⟩
    rw [(hquiet lower).2]
    exact hline lower

/-- A gap up to the sink is new, or none is needed. -/
def connects (done : List Event) (s : System) (sink pp : Hash) : Bool :=
  if s.processor.hasFirstConnect then
    match s.processor.lastProcessedBlock with
    | none => sink ∈ announced done
    | some _ => (get s.disk.gaps sink).isNone
  else (cursorGap sink pp s.disk).isNone || (get s.disk.gaps sink).isNone

theorem cursorGap_cases (sink pp : Hash) (d : Disk) :
    cursorGap sink pp d = none ∧ d.latestBlockCursor = some sink ∨
      ∃ lower, cursorGap sink pp d = some ⟨lower, sink⟩ ∧
        (d.latestBlockCursor = some lower ∨ lower = pp) := by
  unfold cursorGap
  cases d.latestBlockCursor with
  | none => exact .inr ⟨pp, rfl, .inr rfl⟩
  | some block =>
    by_cases heq : block = sink
    · exact .inl ⟨by simp [heq], by rw [heq]⟩
    · exact .inr ⟨block, by simp [heq], .inl rfl⟩

theorem covers_first (h : Covers past done s) {sink pp : Hash}
    (hfirst : s.processor.hasFirstConnect = false)
    (hnew : cursorGap sink pp s.disk = none ∨ get s.disk.gaps sink = none) :
    Covers past (done ++ [.notification (.connected sink pp)]) (handleConnect sink pp s) := by
  obtain ⟨hfillers, hresults⟩ := h.fresh hfirst
  -- the fillers start where the stored gaps do
  have hdisk : Safe past (done ++ [.notification (.connected sink pp)])
      (handleFirstConnect sink pp s.disk).1 s.processor.lastProcessedBlock ∧ ∀ target,
      live target ((handleFirstConnect sink pp s.disk).2.map newFiller) =
        (get (handleFirstConnect sink pp s.disk).1.gaps target).toList := by
    have hrows (target : Hash) := live_rows h.safe.nodup target
    unfold handleFirstConnect
    dsimp only
    rcases cursorGap_cases sink pp s.disk with ⟨hgap, hcursor⟩ | ⟨lower, hgap, hlower⟩
    · rw [hgap]
      refine ⟨h.safe.next (fun _ hupper => hupper.later _ (fun _ hx => hx) (fun _ _ hx => hx) _)
        (fun _ hx => hx) (fun sink' heq => ?_) (by simp [blockOf]) rfl (fun _ hlast => hlast) h.safe.nodup,
        hrows⟩
      obtain rfl := Option.some.inj heq
      exact (h.safe.cursor sink hcursor).later _ (fun _ hx => hx) (fun _ _ hx => hx) _
    · have hnone : get s.disk.gaps sink = none := hnew.resolve_left (by simp [hgap])
      rw [hgap]
      refine ⟨h.safe.insert hnone hlower fun _ hlast => hlast, fun target => ?_⟩
      have hrow := hrows target
      dsimp only [insertGap]
      rw [get_put, List.map_append, live, List.flatMap_append, ← live, hrow]
      by_cases heq : target = sink
      · subst heq
        simp [hnone, liveOf, newFiller]
      · have hne : ¬sink = target := fun h => heq h.symm
        simp [liveOf, newFiller, heq, hne]
  obtain ⟨hsafe, hlive⟩ := hdisk
  unfold handleConnect
  simp only [hfirst, Bool.not_false, if_true]
  generalize handleFirstConnect sink pp s.disk = first at hsafe hlive ⊢
  obtain ⟨fillers, more, hspawned, heq⟩ := spawned first.2 { s with
    disk := first.1
    processor := { s.processor with hasFirstConnect := true, gapsFillers := [] } }
  rw [heq]
  refine ⟨hsafe, fun target => ⟨get first.1.gaps target, ?_, ?_⟩, fun hfresh => by cases hfresh⟩
  · dsimp only
    rw [hresults]
    exact .nil _
  · rw [live_spawned target hspawned, hlive, hfillers]
    exact alone_toList _

theorem covers_again (h : Covers past done s) {sink pp : Hash}
    (hfirst : s.processor.hasFirstConnect = true) (hconnects : connects done s sink pp = true) :
    Covers past (done ++ [.notification (.connected sink pp)]) (handleConnect sink pp s) := by
  unfold connects at hconnects
  rw [if_pos hfirst] at hconnects
  unfold handleConnect
  simp only [hfirst, Bool.not_true, Bool.false_eq_true, if_false]
  split
  · next hlast =>
    rw [hlast] at hconnects
    have hlater (upper : Hash) (hupper : PastStored past done s.disk upper) :=
      hupper.later s.disk (fun _ hx => hx) (fun _ _ hx => hx) (.notification (.connected sink pp))
    refine ⟨h.safe.next hlater (fun _ hx => hx) (fun sink' heq => ?_) (by simp [blockOf]) rfl
      (fun _ hlast => hlast) h.safe.nodup, h.atWork, h.fresh⟩
    obtain rfl := Option.some.inj heq
    exact hlater sink (h.safe.announced sink (of_decide_eq_true hconnects))
  · next block hlast =>
    rw [hlast] at hconnects
    have hnew : get s.disk.gaps sink = none := Option.isNone_iff_eq_none.mp hconnects
    obtain ⟨fillers, more, hspawned, heq⟩ :=
      spawned [⟨block, sink⟩] { s with disk := insertGap ⟨block, sink⟩ s.disk }
    rw [List.foldl_cons, List.foldl_nil] at heq
    rw [heq]
    refine ⟨h.safe.insert hnew (.inl (h.safe.last block hlast)) (by simp), fun target => ?_,
      fun hfresh => by cases hfirst.symm.trans hfresh⟩
    have hlive : live target fillers = live target s.fillers ++ if sink = target then [block] else [] := by
      simpa [live, liveOf, newFiller] using live_spawned target hspawned
    obtain ⟨lower, hline, halone⟩ := h.atWork target
    rw [AtWork, hlive]
    dsimp only [insertGap]
    rw [get_put]
    by_cases heq : target = sink
    · subst heq
      obtain ⟨rfl, hany⟩ := line_none hline hnew
      refine ⟨some block, by simpa using hany (some block), ?_⟩
      rcases halone with hnil | ⟨f, hf, -⟩
      · exact .inr ⟨block, rfl, by simp [hnil]⟩
      · cases hf
    · have hother : ¬sink = target := fun h => heq h.symm
      rw [if_neg heq, if_neg hother, List.append_nil]
      exact ⟨lower, hline, halone⟩

/-! ## Runs -/

/-- Answers are in topological order, nothing comes after the processor has ended, and connections
leave no gap out. -/
def keeps (past : Hash → List Hash) (done : List Event) (s : System) : Event → Bool
  | .notification (.connected sink pp) => !s.processor.finished && connects done s sink pp
  | .notification (.notification _) => !s.processor.finished
  | .answer i blocks => (s.fillers[i]?).all fun f =>
    f.phase ≠ .waiting || topological past f.fromBlock [] blocks
  | _ => true

theorem covers_step (h : Covers past done s) (hkeeps : keeps past done s e = true)
    (hstep : step e s = .ok s') : Covers past (done ++ [e]) s' := by
  cases e with
  | notification n =>
    obtain rfl := Except.ok.inj hstep
    cases n with
    | connected sink pp =>
      obtain ⟨hrunning, hconnects⟩ := Bool.and_eq_true_iff.mp hkeeps
      rw [if_neg (by simpa using hrunning)]
      refine covers_settle ?_
      cases hfirst : s.processor.hasFirstConnect with
      | true => exact covers_again h hfirst hconnects
      | false =>
        rw [connects, hfirst] at hconnects
        exact covers_first h hfirst (by simpa using hconnects)
    | disconnected =>
      split
      · exact h.same rfl rfl
      · exact covers_settle ((h.same rfl rfl).alike (alike_interrupt s))
    | shutdown =>
      split
      · exact h.same rfl rfl
      · have hshut : Covers past (done ++ [.notification .shutdown])
            { s with processor := { s.processor with isShutdown := true } } :=
          ⟨(h.same rfl rfl).safe, h.atWork, h.fresh⟩
        exact covers_settle (hshut.alike (alike_interrupt _))
    | notification block =>
      rw [if_neg (by simpa [keeps] using hkeeps)]
      exact covers_settle (covers_block h block)
  | progress =>
    unfold step at hstep
    dsimp only at hstep
    split at hstep
    · obtain rfl := Except.ok.inj hstep
      exact h.same rfl rfl
    · split at hstep
      · obtain rfl := Except.ok.inj hstep
        exact h.same rfl rfl
      · next m rest hresults =>
        obtain ⟨s₁, hs₁, rfl⟩ := map_ok hstep
        exact covers_settle (covers_progress h hresults hs₁)
  | poll i =>
    obtain rfl := Except.ok.inj hstep
    exact covers_acts h rfl rfl (acts_poll i s)
  | answer i blocks =>
    obtain rfl := Except.ok.inj hstep
    refine covers_acts h rfl rfl (acts_answer fun f hget hphase => ?_)
    rw [keeps, hget] at hkeeps
    exact topological_of_test (by simpa [hphase] using hkeeps)
  | rpcError i =>
    obtain rfl := Except.ok.inj hstep
    exact covers_acts h rfl rfl (acts_rpcError i s)
  | refuse i =>
    obtain rfl := Except.ok.inj hstep
    exact covers_acts h rfl rfl (acts_refuse i s)
  | restart n =>
    obtain rfl := Except.ok.inj hstep
    refine covers_restart h n ?_
    split
    · exact .inl rfl
    · exact .inr rfl

end

theorem run_covers {past : Hash → List Hash} {events : List Event}
    (hkeeps : allSteps step (keeps past) [] events (start ⟨[], [], none⟩) = true) {s : System}
    (hrun : run events (start ⟨[], [], none⟩) = .ok s) : Covers past events s := by
  refine steps_inv (Covers past) ?_ (start_covers past) hrun
  intro done e rest hevents s s' hreached h hstep
  exact covers_step h (of_allSteps hkeeps hevents hreached) hstep

/-- Whatever fillers, connections and crashes do, what is in the past of an announced sink is handled
or between the ends of a stored gap. -/
theorem announced_covered (past : Hash → List Hash) (events : List Event)
    (hkeeps : allSteps step (keeps past) [] events (start ⟨[], [], none⟩) = true) {s : System}
    (hrun : run events (start ⟨[], [], none⟩) = .ok s) :
    ∀ sink ∈ announced events, ∀ x ∈ past sink,
      x ∈ s.disk.handled ∨
      (∃ lower upper, get s.disk.gaps upper = some lower ∧ x ∈ past upper ∧ x ∉ past lower) ∨
      Old past events x ∨ Missed past events x := by
  intro sink hsink x hx
  rcases (run_covers hkeeps hrun).safe.announced sink hsink x hx with (hhandled | hkept) | hgap
  · exact .inl hhandled
  · exact .inr (.inr hkept)
  · exact .inr (.inl hgap)

/-- At any time one filler at most works on a gap. What it has sent goes on from the lower end that is
stored, each answer from where the one before ended, and it asks for what follows the last. -/
theorem fillers_in_line (past : Hash → List Hash) (events : List Event)
    (hkeeps : allSteps step (keeps past) [] events (start ⟨[], [], none⟩) = true) {s : System}
    (hrun : run events (start ⟨[], [], none⟩) = .ok s) (target : Hash) :
    AtWork past s.disk.gaps s.fillers s.gapResults target := (run_covers hkeeps hrun).atWork target

/-! A chain of blocks: the process dies while its gap is filled, and fills the rest after it. -/

def blockAt (n : UInt8) : Hash := List.replicate 32 n

def samplePast (block : Hash) : List Hash :=
  (List.range ((block.headD 0).toNat + 1)).map fun n => blockAt n.toUInt8

def sampleEvents : List Event :=
  [.notification (.connected (blockAt 5) (blockAt 1)), .poll 0, .answer 0 [blockAt 2, blockAt 3],
    .notification (.notification (blockAt 6)), .progress, .poll 0,
    .answer 0 [blockAt 3, blockAt 4, blockAt 5], .restart 2,
    .notification (.connected (blockAt 8) (blockAt 1)), .poll 0,
    .answer 0 [blockAt 4, blockAt 5], .progress]

theorem sample_covered : ∃ s, run sampleEvents (start ⟨[], [], none⟩) = .ok s ∧
    s.disk.gaps = [(blockAt 8, blockAt 6)] ∧
    ∀ sink ∈ announced sampleEvents, ∀ x ∈ samplePast sink,
      x ∈ s.disk.handled ∨
      (∃ lower upper, get s.disk.gaps upper = some lower ∧ x ∈ samplePast upper ∧
        x ∉ samplePast lower) ∨
      Old samplePast sampleEvents x ∨ Missed samplePast sampleEvents x := by
  have htest : okAnd (run sampleEvents (start ⟨[], [], none⟩))
      (·.disk.gaps = [(blockAt 8, blockAt 6)]) = true := by
    decide +kernel
  obtain ⟨s, hs, hgaps⟩ := exists_of_okAnd htest
  exact ⟨s, hs, of_decide_eq_true hgaps,
    announced_covered samplePast sampleEvents (by decide +kernel) hs⟩

theorem sample_in_line : ∃ s, run (sampleEvents.take 3) (start ⟨[], [], none⟩) = .ok s ∧
    s.gapResults.length = 1 ∧ AtWork samplePast s.disk.gaps s.fillers s.gapResults (blockAt 5) := by
  have htest : okAnd (run (sampleEvents.take 3) (start ⟨[], [], none⟩)) (·.gapResults.length = 1) = true := by
    decide +kernel
  obtain ⟨s, hs, hlength⟩ := exists_of_okAnd htest
  exact ⟨s, hs, of_decide_eq_true hlength,
    fillers_in_line samplePast (sampleEvents.take 3) (by decide +kernel) hs (blockAt 5)⟩

end KaChatIndexer.GapCoverage
