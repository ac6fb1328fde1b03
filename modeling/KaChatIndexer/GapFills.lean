import KaChatIndexer.ChatRows
import KaChatIndexer.Fallible

/-!
# Blocks and the gaps between them

The processor of blocks with its stored gaps, and the fillers that fetch what a gap leaves out. A gap
is stored under its upper end; a block moves the lower end up, and the block that ends it removes it.
-/
namespace KaChatIndexer.GapFills
open ByteStrings ChatRows

inductive Fault
  /-- `gaps_filling_in_progress -= 1` at zero -/
  | underflow
  deriving DecidableEq

/-! ## State -/

structure BlockGap where
  fromBlock : Hash
  toBlock : Hash

/-- `gaps` is by the upper end. -/
structure Disk where
  gaps : Partition Hash Hash
  handled : List Hash
  latestBlockCursor : Option Hash

inductive FillerPhase
  | polling
  | waiting
  | ended
  /-- `unwrap()` on the last of no blocks -/
  | crashed
  deriving DecidableEq

/-- What a filler finds in its `interrupt_rx`. -/
inductive Interrupt
  | empty
  | sent
  | closed
  deriving DecidableEq

structure BlockGapFiller where
  targetBlock : Hash
  fromBlock : Hash
  phase : FillerPhase
  interrupt : Interrupt

inductive BlockNotification
  | connected (sink pp : Hash)
  | disconnected
  | shutdown
  | notification (block : Hash)
  deriving DecidableEq

inductive GapFillingProgress
  | update (target : Hash) (blocks : List Hash)
  | interrupted (target : Hash)
  | finished (target : Hash) (blocks : List Hash)
  | error (target : Hash)
  deriving DecidableEq

/-- `gapsFillers` holds the place of the filler whose interrupt is kept for a gap. -/
structure BlockProcessor where
  hasFirstConnect : Bool
  gapsFillers : Partition Hash ℕ
  isShutdown : Bool
  lastProcessedBlock : Option Hash
  gapsFillingInProgress : ℕ
  finished : Bool

structure System where
  disk : Disk
  processor : BlockProcessor
  fillers : List BlockGapFiller
  gapResults : List GapFillingProgress
  processedBlocks : List Hash

/-! ## Gaps -/

def insertGap (g : BlockGap) (d : Disk) : Disk := { d with gaps := put d.gaps g.toBlock g.fromBlock }

/-- A block that is there already is skipped. -/
def handleBlock (block : Hash) (d : Disk) : Disk :=
  if block ∈ d.handled then d else { d with handled := d.handled ++ [block] }

/-- The gap that the cursor leaves. -/
def cursorGap (sink pp : Hash) (d : Disk) : Option BlockGap :=
  match d.latestBlockCursor with
  | none => some ⟨pp, sink⟩
  | some block => if block ≠ sink then some ⟨block, sink⟩ else none

def handleFirstConnect (sink pp : Hash) (d : Disk) : Disk × List BlockGap :=
  let gaps := d.gaps.map fun row => ⟨row.2, row.1⟩
  match cursorGap sink pp d with
  | none => (d, gaps)
  | some gap => (insertGap gap d, gaps ++ [gap])

/-- The blocks of an answer, one transaction each. -/
def fillBlocks (target : Hash) (finishes : Bool) : List Hash → Disk → Disk
  | [], d => d
  | [block], d =>
    if finishes then
      let d := handleBlock block d
      { d with gaps := erase d.gaps target }
    else insertGap ⟨block, target⟩ (handleBlock block d)
  | block :: blocks, d => fillBlocks target finishes blocks (insertGap ⟨block, target⟩ (handleBlock block d))

/-! ## Fillers -/

/-- The sender of the interrupt is dropped. -/
def dropInterrupt (i : ℕ) (fillers : List BlockGapFiller) : List BlockGapFiller :=
  fillers.modify i fun f => if f.interrupt = .empty then { f with interrupt := .closed } else f

def sendInterrupt (i : ℕ) (fillers : List BlockGapFiller) : List BlockGapFiller :=
  fillers.modify i fun f => { f with interrupt := .sent }

/-- `gaps_fillers.remove(&to)` -/
def removeFiller (target : Hash) (s : System) : System :=
  match get s.processor.gapsFillers target with
  | none => s
  | some i =>
    { s with
      processor := { s.processor with gapsFillers := erase s.processor.gapsFillers target }
      fillers := dropInterrupt i s.fillers }

/-- An interrupt that was kept for the same gap is dropped. -/
def spawnFiller (s : System) (g : BlockGap) : System :=
  let fillers :=
    match get s.processor.gapsFillers g.toBlock with
    | none => s.fillers
    | some i => dropInterrupt i s.fillers
  { s with
    processor := { s.processor with
      gapsFillers := put s.processor.gapsFillers g.toBlock s.fillers.length }
    fillers := fillers ++ [⟨g.toBlock, g.fromBlock, .polling, .empty⟩] }

def interruptFillers (s : System) : System :=
  { s with
    processor := { s.processor with gapsFillers := [] }
    fillers := s.processor.gapsFillers.foldl (fun fillers row => sendInterrupt row.2 fillers) s.fillers }

/-- `try_recv` on the interrupt, then the request. -/
def poll (i : ℕ) (s : System) : System :=
  match s.fillers[i]? with
  | none => s
  | some f =>
    if f.phase = .polling then
      match f.interrupt with
      | .empty => { s with fillers := s.fillers.set i { f with phase := .waiting } }
      | .sent | .closed =>
        { s with
          fillers := s.fillers.set i { f with phase := .ended }
          gapResults := s.gapResults ++ [.interrupted f.targetBlock] }
    else s

def answer (i : ℕ) (blocks : List Hash) (s : System) : System :=
  match s.fillers[i]? with
  | none => s
  | some f =>
    if f.phase = .waiting then
      if f.targetBlock ∈ blocks then
        { s with
          fillers := s.fillers.set i { f with phase := .ended }
          gapResults := s.gapResults ++ [.finished f.targetBlock blocks] }
      else
        match blocks.getLast? with
        | none => { s with fillers := s.fillers.set i { f with phase := .crashed } }
        | some last =>
          { s with
            fillers := s.fillers.set i { f with fromBlock := last, phase := .polling }
            gapResults := s.gapResults ++ [.update f.targetBlock blocks] }
    else s

def rpcError (i : ℕ) (s : System) : System :=
  match s.fillers[i]? with
  | none => s
  | some f =>
    if f.phase = .waiting then
      { s with
        fillers := s.fillers.set i { f with phase := .ended }
        gapResults := s.gapResults ++ [.error f.targetBlock] }
    else s

/-- The data source is shutting down. -/
def refuse (i : ℕ) (s : System) : System :=
  match s.fillers[i]? with
  | none => s
  | some f =>
    if f.phase = .waiting then { s with fillers := s.fillers.set i { f with phase := .polling } } else s

/-! ## The processor -/

def handleConnect (sink pp : Hash) (s : System) : System :=
  if !s.processor.hasFirstConnect then
    let first := handleFirstConnect sink pp s.disk
    let s : System := { s with
      disk := first.1
      processor := { s.processor with hasFirstConnect := true, gapsFillers := [] } }
    let s := first.2.foldl spawnFiller s
    { s with processor :=
      { s.processor with gapsFillingInProgress := s.processor.gapsFillers.length } }
  else
    match s.processor.lastProcessedBlock with
    | none => s
    | some block =>
      let s := spawnFiller { s with disk := insertGap ⟨block, sink⟩ s.disk } ⟨block, sink⟩
      { s with processor := { s.processor with
        lastProcessedBlock := none
        gapsFillingInProgress := s.processor.gapsFillingInProgress + 1 } }

def handleRealtimeBlock (block : Hash) (s : System) : System :=
  { s with
    disk := { handleBlock block s.disk with latestBlockCursor := some block }
    processor := { s.processor with lastProcessedBlock := some block }
    processedBlocks :=
      if s.processor.isShutdown then s.processedBlocks else s.processedBlocks ++ [block] }

def handleNotification (s : System) : BlockNotification → System
  | .connected sink pp => handleConnect sink pp s
  | .disconnected => interruptFillers s
  | .shutdown => interruptFillers { s with processor := { s.processor with isShutdown := true } }
  | .notification block => handleRealtimeBlock block s

/-- The blocks are stored and sent on. -/
def handleBlocks (target : Hash) (finishes : Bool) (blocks : List Hash) (s : System) : System :=
  { s with
    disk := fillBlocks target finishes blocks s.disk
    processedBlocks :=
      if s.processor.isShutdown then s.processedBlocks else s.processedBlocks ++ blocks }

/-- A filler is done. -/
def endFiller (target : Hash) (s : System) : Except Fault System :=
  let s := removeFiller target s
  if s.processor.gapsFillingInProgress = 0 then .error .underflow
  else
    .ok { s with processor :=
      { s.processor with gapsFillingInProgress := s.processor.gapsFillingInProgress - 1 } }

def handleProgress (s : System) : GapFillingProgress → Except Fault System
  | .update target blocks => .ok (handleBlocks target false blocks s)
  | .interrupted target | .error target => endFiller target s
  | .finished target blocks => endFiller target (handleBlocks target true blocks s)

/-- The loop ends after a shutdown, when no filler is left. -/
def settle (s : System) : System :=
  if s.processor.isShutdown ∧ s.processor.gapsFillingInProgress = 0 then
    { s with processor := { s.processor with finished := true } }
  else s

/-! ## Runs -/

/-- The process starts on what is stored. -/
def start (d : Disk) : System where
  disk := d
  processor := ⟨false, [], false, none, 0, false⟩
  fillers := []
  gapResults := []
  processedBlocks := []

/-- The blocks of the result at hand that are stored when the process dies in the midst of them. -/
def crash (n : ℕ) (s : System) : Disk :=
  match s.gapResults with
  | .update target blocks :: _ => fillBlocks target false (blocks.take n) s.disk
  | .finished target blocks :: _ => fillBlocks target (blocks.length ≤ n) (blocks.take n) s.disk
  | _ => s.disk

inductive Event
  | notification (n : BlockNotification)
  /-- the processor takes the next result -/
  | progress
  | poll (i : ℕ)
  | answer (i : ℕ) (blocks : List Hash)
  | rpcError (i : ℕ)
  | refuse (i : ℕ)
  /-- the process dies, `n` blocks into the next result, and starts again -/
  | restart (n : ℕ)
  deriving DecidableEq

def step (e : Event) (s : System) : Except Fault System :=
  match e with
  | .notification n => .ok (if s.processor.finished then s else settle (handleNotification s n))
  | .progress =>
    if s.processor.finished then .ok s
    else
      match s.gapResults with
      | [] => .ok s
      | m :: rest => (handleProgress { s with gapResults := rest } m).map settle
  | .poll i => .ok (poll i s)
  | .answer i blocks => .ok (answer i blocks s)
  | .rpcError i => .ok (rpcError i s)
  | .refuse i => .ok (refuse i s)
  | .restart n => .ok (start (if s.processor.finished then s.disk else crash n s))

def run (events : List Event) (s : System) : Except Fault System := Fallible.foldSteps step events s

end KaChatIndexer.GapFills
