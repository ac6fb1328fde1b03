import KaChatIndexer.GatedConfluence
import KaChatIndexer.NamesApply

/-!
# The bootstrap walk

The inner loop of a round of `walk`: the verified candidates are sorted by accepting order, and
each is applied once every input it takes from the registry or price covenant is tracked. Several
passes, so that one transaction can make the next one ready.
-/
namespace KaChatIndexer.FollowerBootstrap
open ByteStrings NamesState NamesEnv NamesTemplates NamesRegistry NamesApply GatedConfluence

/-- A REST transaction plus, per input, the covenant id of the output it spends. -/
structure RestTx where
  tx : Tx
  inputCovenants : List (Option Bytes32)

/-- What a walk did: every transaction applied, in order, and their events. -/
structure Report where
  applied : List Tx
  events : List Event

/-- The registry a walk moves forward, with its report. -/
structure Walk where
  registry : Registry
  report : Report

section
variable (env : Env) (t : Templates)

def ours (c : Option Bytes32) : Bool := c.isSome && (c == t.registryId || c == t.priceId)

/-- Every input taken from the registry or price covenant is tracked. -/
def isReady (utxos : UtxoMap) (rt : RestTx) : Bool :=
  (rt.tx.inputs.zip rt.inputCovenants).all fun (i, c) =>
    !ours t c || decide (i.previousOutpoint ∈ utxos)

/-- The order `(accepting_daa, block_time, id)` of the candidates. -/
def acceptingLe (a b : RestTx) : Bool :=
  a.tx.acceptingDaa < b.tx.acceptingDaa || (a.tx.acceptingDaa == b.tx.acceptingDaa &&
    (a.tx.blockTime < b.tx.blockTime || (a.tx.blockTime == b.tx.blockTime &&
      decide (a.tx.id ≤ b.tx.id))))

def applyRest (w : Walk) (rt : RestTx) : Walk :=
  let (registry, events) := applyTx env t rt.tx w.registry
  ⟨registry, ⟨w.report.applied ++ [rt.tx], w.report.events ++ events⟩⟩

/-- The loop over the candidates of a round: the walk after it, and the candidates left. -/
def applyCandidates (w : Walk) (candidates : List RestTx) : Walk × List RestTx :=
  passes (fun w rt => isReady t w.registry.utxos rt) (applyRest env t) w
    (candidates.mergeSort acceptingLe)

end

end KaChatIndexer.FollowerBootstrap
