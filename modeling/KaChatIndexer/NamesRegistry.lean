import KaChatIndexer.NamesTemplates
import KaChatIndexer.NamesProfile

/-!
# Transactions, events and the tracked registry
-/
namespace KaChatIndexer.NamesRegistry
open ByteStrings NamesCodec NamesState NamesEnv NamesTransition NamesTemplates NamesProfile

structure TxInput where
  previousOutpoint : Outpoint
  signatureScript : Bytes
  /-- The script of the output this input spends (empty when unknown). -/
  spentScript : Bytes
  spentAmount : Option UInt64
  deriving DecidableEq

/-- Which input authorized a covenant output, under which covenant id. -/
structure CovenantBinding where
  authorizingInput : UInt16
  covenantId : Bytes32
  deriving DecidableEq

structure TxOutput where
  scriptPublicKey : Bytes
  value : UInt64
  covenant : Option CovenantBinding
  deriving DecidableEq

/-- An accepted transaction. Outpoints index outputs by `u32` and bindings name inputs by `u16`,
so the casts of the applier are exact; and an id commits to the outpoints spent, so no
transaction spends an output of its own. -/
structure Tx where
  id : Bytes32
  inputs : List TxInput
  outputs : List TxOutput
  payload : Bytes
  acceptingBlock : Bytes32
  acceptingDaa : UInt64
  blockTime : Int64
  inputs_le : inputs.length ≤ 2 ^ 16
  outputs_le : outputs.length ≤ 2 ^ 32
  inputs_ne_id : ∀ i ∈ inputs, i.previousOutpoint.1 ≠ id

def checkedAdd (a b : UInt64) : Option UInt64 :=
  if a.toNat + b.toNat < 2 ^ 64 then some (a + b) else none

def checkedSub (a b : UInt64) : Option UInt64 := if b ≤ a then some (a - b) else none

/-- What the transaction paid miners; `none` when an input's amount is unknown. -/
def Tx.fee (tx : Tx) : Option Int64 := do
  let spent ← tx.inputs.foldlM (fun acc i => i.spentAmount.bind (checkedAdd acc)) 0
  let out ← tx.outputs.foldlM (fun acc o => checkedAdd acc o.value) 0
  let fee ← checkedSub spent out
  if fee.toNat < 2 ^ 63 then some (Int64.ofNat fee.toNat) else none

/-- The outpoint of output `i`. -/
def Tx.outpoint (tx : Tx) (i : ℕ) : Outpoint := (tx.id, UInt32.ofNat i)

/-- An accepted profile record with its accepting order. -/
abbrev ProfileRow := Bytes × (UInt64 × Bytes32)

abbrev ProfileMap := Finmap fun _ : Bytes => ProfileRow

/-- What one applied transaction changed: the UTXOs it added, those it consumed, and the profile
it replaced with the prior row. -/
structure UndoEntry where
  block : Bytes32
  added : List Outpoint
  removed : List (Outpoint × Tracked)
  profile : Option (Bytes × Option ProfileRow)
  deriving DecidableEq

inductive Op
  | register | import | transfer | sale | offerAccepted | list | delist | renew | extend
  | release | reclaim | offer | offerDecline | offerWithdraw | offerRefund
  | prices | priceAuthority
  deriving DecidableEq

structure Event where
  op : Op
  key : Bytes32
  txId : Bytes32
  block : Bytes32
  daa : UInt64
  time : Int64
  fromKey : Option Bytes32
  toKey : Option Bytes32
  price : Option Int64
  years : Option Int64
  fee : Option Int64
  deriving DecidableEq

/-- The event `op` on `key`, with nothing said yet about owners, price or years. -/
def event (op : Op) (key : Bytes32) (tx : Tx) : Event :=
  { op, key, txId := tx.id, block := tx.acceptingBlock, daa := tx.acceptingDaa,
    time := tx.blockTime, fromKey := none, toKey := none, price := none, years := none,
    fee := tx.fee }

/-- Gaps, names, offers and shards by outpoint, profiles by address, and the undo journal,
oldest entry first. -/
structure Registry where
  utxos : UtxoMap
  profiles : ProfileMap
  journal : List UndoEntry

def Registry.new : Registry := ⟨∅, ∅, []⟩

def Registry.seedGenesis (r : Registry) (op : Outpoint) (gap : GapState) : Registry :=
  { r with utxos := r.utxos.insert op (.gap gap) }

def Registry.seedShard (r : Registry) (op : Outpoint) (shard : PriceState) : Registry :=
  { r with utxos := r.utxos.insert op (.shard shard) }

/-- The tracked names, in iteration order. -/
def names (env : Env) (utxos : UtxoMap) : List (Outpoint × NameState) :=
  (env.iter utxos).1.filterMap fun op =>
    match utxos.lookup op with
    | some (.name n) => some (op, n)
    | _ => none

def nameByKey (env : Env) (utxos : UtxoMap) (key : Bytes32) : Option (Outpoint × NameState) :=
  (names env utxos).find? fun (_, n) => n.key = key

theorem mem_names {env : Env} {utxos : UtxoMap} {op : Outpoint} {n : NameState} :
    (op, n) ∈ names env utxos ↔ utxos.lookup op = some (.name n) := by
  simp only [names, List.mem_filterMap]
  constructor
  · rintro ⟨op', -, h⟩
    split at h
    · next m hm => cases h; exact hm
    · cases h
  · intro h
    refine ⟨op, ((env.iter utxos).2.2 op).mpr (Finmap.mem_iff.mpr ⟨_, h⟩), ?_⟩
    simp [h]

theorem nameByKey_some {env : Env} {utxos : UtxoMap} {key : Bytes32} {x : Outpoint × NameState}
    (h : nameByKey env utxos key = some x) :
    utxos.lookup x.1 = some (.name x.2) ∧ x.2.key = key :=
  ⟨mem_names.mp (List.mem_of_find?_eq_some h), by simpa using List.find?_some h⟩

/-- With one name under the key, the iteration order does not matter. -/
theorem nameByKey_eq {env : Env} {utxos : UtxoMap} {op : Outpoint} {n : NameState}
    (h : utxos.lookup op = some (.name n))
    (huniq : ∀ op' m, utxos.lookup op' = some (.name m) → m.key = n.key → op' = op) :
    nameByKey env utxos n.key = some (op, n) := by
  cases hf : nameByKey env utxos n.key with
  | none =>
    have := List.find?_eq_none.mp hf (op, n) (mem_names.mpr h)
    simp at this
  | some p =>
    obtain ⟨hp, hkey⟩ := nameByKey_some hf
    have hop := huniq p.1 p.2 hp hkey
    rw [hop, h] at hp
    cases hp
    exact congrArg some (Prod.ext hop rfl)

theorem outpoint_injective {tx : Tx} {i j : ℕ} (hi : i < tx.outputs.length)
    (hj : j < tx.outputs.length) (h : tx.outpoint i = tx.outpoint j) : i = j := by
  have hle := tx.outputs_le
  have hn := congrArg (fun op : Outpoint => op.2.toNat) h
  simp only [Tx.outpoint, UInt32.toNat_ofNat'] at hn
  omega

end KaChatIndexer.NamesRegistry
