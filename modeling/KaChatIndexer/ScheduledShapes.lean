import KaChatIndexer.ScheduledCarried

/-!
# The two shapes of a scheduled transaction

The REST shape leaves out what is zero and writes a script beside its version; the RPC shape has
every member and writes the script after its version. Both have one id, and what the relay carries of
them has it too.
-/
namespace KaChatIndexer.ScheduledShapes
open ByteStrings KaText JsonReading ScheduledRelay ScheduledCarried

structure OutputTexts where
  amount : Fin (2 ^ 64)
  version : Fin (2 ^ 16)
  script : Text
  covenant : Option CovenantJson

/-- A transaction as its senders write it, whatever the shape. -/
structure TxTexts where
  version : Fin (2 ^ 16)
  inputs : List TxInputJson
  outputs : List OutputTexts
  lockTime : Fin (2 ^ 64)
  subnetworkId : Text
  gas : Fin (2 ^ 64)
  payload : Text

def number {n : ℕ} (x : Fin n) : Json := .int (x.val : ℤ)

/-- A member that is left out when zero. -/
def unlessZero {n : ℕ} [NeZero n] (key : String) (x : Fin n) : List (String × Json) :=
  if x = 0 then [] else [(key, number x)]

def inputMembers (i : TxInputJson) : List (String × Json) :=
  [("previousOutpoint", .obj [("transactionId", .str i.previousOutpoint.transactionId),
      ("index", number i.previousOutpoint.index)]),
    ("signatureScript", .str i.signatureScript), ("sequence", number i.sequence),
    ("sigOpCount", number i.sigOpCount)] ++ unlessZero "computeBudget" i.computeBudget

def covenantMembers : Option CovenantJson → List (String × Json)
  | some c => [("covenant", .obj [("authorizingInput", number c.authorizingInput),
      ("covenantId", .str c.covenantId)])]
  | none => []

/-- `amount`, and the script with its version beside it. -/
def restShapeOutput (o : OutputTexts) : Json :=
  .obj ([("amount", number o.amount), ("scriptPublicKey", .obj [("version", number o.version),
    ("scriptPublicKey", .str o.script)])] ++ covenantMembers o.covenant)

def versionHex (version : Fin (2 ^ 16)) : Text :=
  ScheduledPosts.hexEncode [UInt8.ofNat (version.val / 256), UInt8.ofNat (version.val % 256)]

/-- `value`, and the script after its version. -/
def rpcShapeOutput (o : OutputTexts) : Json :=
  .obj ([("value", number o.amount), ("scriptPublicKey", .str (versionHex o.version ++ o.script)),
    ("verboseData", .null)] ++ covenantMembers o.covenant)

def restJson (t : TxTexts) : Json :=
  .obj ([("version", number t.version), ("inputs", .arr (t.inputs.map fun i => .obj (inputMembers i))),
    ("outputs", .arr (t.outputs.map restShapeOutput)), ("lockTime", number t.lockTime),
    ("subnetworkId", .str t.subnetworkId), ("payload", .str t.payload)] ++ unlessZero "gas" t.gas)

def rpcJson (t : TxTexts) : Json :=
  .obj [("version", number t.version),
    ("inputs", .arr (t.inputs.map fun i => .obj (("verboseData", .null) :: inputMembers i))),
    ("outputs", .arr (t.outputs.map rpcShapeOutput)), ("lockTime", number t.lockTime),
    ("subnetworkId", .str t.subnetworkId), ("gas", number t.gas), ("mass", .int 0),
    ("payload", .str t.payload), ("verboseData", .null)]

theorem read_restShapeOutput (o : OutputTexts) : TxOutputJson.read (restShapeOutput o) =
    some ⟨o.amount, .object o.version o.script, o.covenant⟩ := by
  obtain ⟨amount, version, script, _ | ⟨input, id⟩⟩ := o <;>
    simp [restShapeOutput, covenantMembers, TxOutputJson.read, CovenantJson.read, ScriptJson.read,
      ScriptJson.readObject, Json.fits, Json.field, Json.fieldOr, Json.slot, Json.given, number,
      Json.isObject, Json.text, Json.optional]

theorem read_rpcShapeOutput (o : OutputTexts) : TxOutputJson.read (rpcShapeOutput o) =
    some ⟨o.amount, .hex (versionHex o.version ++ o.script), o.covenant⟩ := by
  obtain ⟨amount, version, script, _ | ⟨input, id⟩⟩ := o <;>
    simp [rpcShapeOutput, covenantMembers, TxOutputJson.read, CovenantJson.read, ScriptJson.read,
      ScriptJson.readObject, Json.fits, Json.field, Json.fieldOr, Json.slot, Json.given, number,
      Json.isObject, Json.text, Json.optional]

theorem read_inputMembers (i : TxInputJson) (extra : List (String × Json))
    (h : extra = [] ∨ extra = [("verboseData", .null)]) :
    TxInputJson.read (.obj (extra ++ inputMembers i)) = some i := by
  obtain ⟨⟨id, index⟩, script, sequence, count, budget⟩ := i
  by_cases hbudget : budget = 0
  · rcases h with rfl | rfl <;>
      simp [hbudget, inputMembers, unlessZero, TxInputJson.read, TxOutpointJson.read, Json.fits,
        Json.field, Json.fieldOr, Json.slot, Json.given, number, Json.text]
  · rcases h with rfl | rfl <;>
      simp [hbudget, inputMembers, unlessZero, TxInputJson.read, TxOutpointJson.read, Json.fits,
        Json.field, Json.fieldOr, Json.slot, Json.given, number, Json.text]

/-- What both shapes read as, but for the scripts. -/
def readTexts (script : OutputTexts → ScriptJson) (t : TxTexts) : TxJson :=
  ⟨t.version, t.inputs, t.outputs.map fun o => ⟨o.amount, script o, o.covenant⟩, t.lockTime,
    t.subnetworkId, t.gas, t.payload⟩

theorem read_restJson (t : TxTexts) :
    TxJson.read (restJson t) = some (readTexts (fun o => .object o.version o.script) t) := by
  obtain ⟨version, inputs, outputs, lockTime, subnetwork, gas, payload⟩ := t
  have hinputs := Json.items_map inputs fun i => read_inputMembers i [] (.inl rfl)
  have houtputs := Json.items_map outputs read_restShapeOutput
  by_cases hgas : gas = 0 <;>
    simp_all [restJson, readTexts, unlessZero, TxJson.read, Json.fits, Json.field, Json.fieldOr,
      Json.slot, Json.given, number, Json.text]

theorem read_rpcJson (t : TxTexts) :
    TxJson.read (rpcJson t) = some (readTexts (fun o => .hex (versionHex o.version ++ o.script)) t) := by
  obtain ⟨version, inputs, outputs, lockTime, subnetwork, gas, payload⟩ := t
  have hinputs := Json.items_map inputs fun i =>
    read_inputMembers i [("verboseData", .null)] (.inr rfl)
  have houtputs := Json.items_map outputs read_rpcShapeOutput
  simp_all [rpcJson, readTexts, TxJson.read, Json.fits, Json.field, Json.fieldOr, Json.slot,
    Json.given, number, Json.text]

theorem scriptPublicKey_hex (version : Fin (2 ^ 16)) (script : Text) :
    scriptPublicKey (.hex (versionHex version ++ script)) = scriptPublicKey (.object version script) := by
  have hversion : u16OfBe (UInt8.ofNat (version.val / 256)) (UInt8.ofNat (version.val % 256)) = version := by
    apply Fin.ext
    have hlt := version.isLt
    simp only [u16OfBe, UInt8.toNat_ofNat']
    omega
  simp only [scriptPublicKey, versionHex, ScheduledPosts.hexDecode_hexEncode_append]
  cases hexDecode script with
  | none => rfl
  | some b => exact congrArg (fun v => some (ScriptPublicKey.mk v b)) hversion

section
variable {Hash Subnetwork : Type} (lib : Consensus Hash Subnetwork)

theorem shapes_agree (t : TxTexts) :
    scheduledTransaction lib (restJson t) = scheduledTransaction lib (rpcJson t) := by
  have hrest : innerTx (restJson t) = restJson t := by
    by_cases hgas : t.gas = 0 <;> simp [innerTx, restJson, unlessZero, Json.get, List.lookup_cons, hgas]
  have hrpc : innerTx (rpcJson t) = rpcJson t := by simp [innerTx, rpcJson, Json.get, List.lookup_cons]
  have hscript (o : OutputTexts) :
      transactionOutput lib ⟨o.amount, .object o.version o.script, o.covenant⟩ =
        transactionOutput lib ⟨o.amount, .hex (versionHex o.version ++ o.script), o.covenant⟩ := by
    simp only [transactionOutput, scriptPublicKey_hex]
  unfold scheduledTransaction
  rw [hrest, hrpc, read_restJson, read_rpcJson]
  simp only [Option.bind_some, transactionOfJson, readTexts, List.mapM_map, Function.comp_def, hscript]

end

/-! ## A budget that is dropped -/

def sampleConsensus : Consensus Bytes Bytes where
  hash t := (hexDecode t).bind fun b => if b.length = 32 then some b else none
  subnetworkId t := (hexDecode t).bind fun b => if b.length = 20 then some b else none
  id tx := ScheduledPosts.hexEncode tx.payload
  jsonError _ := "invalid type".toList
  hashError _ := "invalid hash".toList
  subnetworkError _ := "invalid subnetwork".toList
  hexError _ := "invalid hex".toList

/-- A spending transaction with one input and one output. -/
def sampleTexts (version : Fin (2 ^ 16)) : TxTexts where
  version := version
  inputs := [⟨⟨ScheduledPosts.hexEncode (List.replicate 32 0xab), 1⟩, "4101".toList, 0, 1, 10⟩]
  outputs := [⟨123456, 0, "20aaac".toList, none⟩]
  lockTime := 0
  subnetworkId := ScheduledPosts.hexEncode (List.replicate 20 0)
  gas := 0
  payload := ScheduledPosts.hexEncode (ascii "kchat:1:post:02aa:aGk=")

end KaChatIndexer.ScheduledShapes
