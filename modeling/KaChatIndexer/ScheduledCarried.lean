import KaChatIndexer.Fallible
import KaChatIndexer.ScheduledRelay

/-!
# What the relay keeps of a scheduled transaction

Both readers go through the same fields. The relay fails on a `mass` that is no number and on items
with a place too many; it drops compute budgets and covenants, and takes an object that the
transaction holds under `transaction` for the transaction itself.
-/
namespace KaChatIndexer.ScheduledCarried
open ByteStrings KaText JsonReading ScheduledRelay

section
variable {Hash Subnetwork : Type} {lib : Consensus Hash Subnetwork}

/-! ## Hex fields -/

theorem utf8Length_hex {t : Text} {b : Bytes} (h : hexDecode t = some b) :
    ScheduledPosts.utf8Length t % 2 = 0 := by
  induction t using hexDecode.induct generalizing b with
  | case1 => rfl
  | case2 => cases h
  | case3 x y t ih =>
    have hx := utf8Size_hex (hexDecode_chars h x (by simp))
    have hy := utf8Size_hex (hexDecode_chars h y (by simp))
    simp only [hexDecode, Option.bind_eq_some_iff, Option.map_eq_some_iff] at h
    obtain ⟨_, -, _, -, b', hb', -⟩ := h
    have hrest := ih hb'
    simp only [ScheduledPosts.utf8Length, List.map_cons, List.sum_cons, hx, hy] at hrest ⊢
    omega

theorem relayHex_ok {field t : Text} {b : Bytes} :
    relayHex lib field t = .ok b ↔ hexDecode t = some b := by
  unfold relayHex
  constructor
  · intro h
    split at h
    · cases h
    · cases hd : hexDecode t with
      | none => simp [hd, okOr] at h
      | some b' => simpa [hd, okOr] using h
  · intro h
    rw [if_neg (by rw [utf8Length_hex h]; omega), h]
    rfl

theorem okOr_ok {α : Type*} {e : Text} {o : Option α} {a : α} : okOr e o = .ok a ↔ o = some a := by
  cases o <;> simp [okOr]

/-! ## Fields read by both -/

/-- What the relay takes of an input. -/
def relayInput (i : TxInputJson) : RelayTxInputJson :=
  ⟨i.previousOutpoint, i.signatureScript, i.sequence, i.sigOpCount⟩

def relayOutput (o : TxOutputJson) : RelayTxOutputJson := ⟨o.amount, o.scriptPublicKey⟩

def relayTx (payload : Option Text) (mass : Fin (2 ^ 64)) (tx : TxJson) : RelayTxJson :=
  ⟨tx.version, tx.inputs.map relayInput, tx.outputs.map relayOutput, tx.lockTime, tx.subnetworkId,
    tx.gas, payload, mass⟩

theorem read_relayInput (j : Json) (i : TxInputJson) (h : TxInputJson.read j = some i) :
    RelayTxInputJson.read j = if j.fits 4 then some (relayInput i) else none := by
  simp only [TxInputJson.read, Option.ite_none_right_eq_some, Option.bind_eq_bind,
    Option.bind_eq_some_iff, Option.some.injEq] at h
  obtain ⟨-, outpoint, hpoint, script, hscript, sequence, hsequence, count, hcount, -, -, rfl⟩ := h
  rw [RelayTxInputJson.read, hpoint, hscript, hsequence, hcount]
  rfl

theorem read_relayOutput (j : Json) (o : TxOutputJson) (h : TxOutputJson.read j = some o) :
    RelayTxOutputJson.read j = if j.fits 2 then some (relayOutput o) else none := by
  simp only [TxOutputJson.read, Option.ite_none_right_eq_some, Option.bind_eq_bind,
    Option.bind_eq_some_iff, Option.some.injEq] at h
  obtain ⟨-, amount, hamount, script, hscript, -, -, rfl⟩ := h
  rw [RelayTxOutputJson.read, hamount, hscript]
  rfl

/-- An absent payload is an empty one to both. -/
theorem read_payload {j : Json} {payload : Text}
    (h : j.fieldOr ["payload"] 6 [] Json.text = some payload) :
    ∃ p : Option Text, j.fieldOr ["payload"] 6 none (Json.optional Json.text) = some p ∧
      p.getD [] = payload := by
  obtain ⟨v, hv, hread⟩ := Option.bind_eq_some_iff.mp h
  unfold Json.fieldOr
  rw [hv]
  cases v with
  | none =>
    cases hread
    exact ⟨none, rfl, rfl⟩
  | some x =>
    cases x with
    | str t =>
      cases hread
      exact ⟨some payload, rfl, rfl⟩
    | null | bool _ | int _ | float _ | arr _ | obj _ => cases hread

/-- The relay's only member of its own. -/
def mass (j : Json) : Option (Fin (2 ^ 64)) := j.fieldOr ["mass"] 7 0 (Json.uint 64)

/-- No input has a fifth place and no output a third. -/
def ItemsFit (j : Json) : Prop :=
  j.fieldFits ["inputs"] 1 4 = true ∧ j.fieldFits ["outputs"] 2 2 = true

theorem read_relayTx {j : Json} {tx : TxJson} (h : TxJson.read j = some tx) :
    ∃ payload : Option Text, payload.getD [] = tx.payload ∧ ∀ rtx, RelayTxJson.read j = some rtx ↔
      ItemsFit j ∧ ∃ m, mass j = some m ∧ rtx = relayTx payload m tx := by
  simp only [TxJson.read, Option.ite_none_right_eq_some, Option.bind_eq_bind,
    Option.bind_eq_some_iff, Option.some.injEq] at h
  obtain ⟨hfits, version, hversion, inputs, hinputs, outputs, houtputs, lockTime, hlock, subnetwork,
    hsub, gas, hgas, payload, hpayload, rfl⟩ := h
  obtain ⟨p, hp, hpay⟩ := read_payload hpayload
  refine ⟨p, hpay, fun rtx => ?_⟩
  rw [RelayTxJson.read, if_pos (Json.fits_mono (by omega) hfits), hversion, hlock, hsub, hgas, hp,
    Json.field_items hinputs read_relayInput, Json.field_items houtputs read_relayOutput]
  unfold ItemsFit mass
  cases hin : j.fieldFits ["inputs"] 1 4 with
  | false => simp
  | true =>
    cases hout : j.fieldFits ["outputs"] 2 2 with
    | false => simp
    | true => simp [Option.bind_eq_some_iff, relayTx, eq_comm (a := rtx)]

/-! ## Transactions built from the fields -/

theorem relayScript_ok {s : ScriptJson} {script : ScriptPublicKey} :
    relayScript lib s = .ok script ↔ scriptPublicKey s = some script := by
  cases s with
  | object version t =>
    constructor
    · intro h
      obtain ⟨bytes, hbytes, h⟩ := Fallible.bind_ok_iff.mp h
      cases h
      rw [scriptPublicKey, relayHex_ok.mp hbytes]
      rfl
    · intro h
      obtain ⟨bytes, hbytes, rfl⟩ := Option.map_eq_some_iff.mp h
      exact Fallible.bind_ok_iff.mpr ⟨bytes, relayHex_ok.mpr hbytes, rfl⟩
  | hex t =>
    constructor
    · intro h
      obtain ⟨bytes, hbytes, h⟩ := Fallible.bind_ok_iff.mp h
      rw [scriptPublicKey, relayHex_ok.mp hbytes]
      rcases bytes with _ | ⟨hi, _ | ⟨lo, rest⟩⟩
      · cases h
      · cases h
      · cases h
        rfl
    · intro h
      unfold scriptPublicKey at h
      cases hd : hexDecode t with
      | none => simp [hd] at h
      | some bytes =>
        refine Fallible.bind_ok_iff.mpr ⟨bytes, relayHex_ok.mpr hd, ?_⟩
        rcases bytes with _ | ⟨hi, _ | ⟨lo, rest⟩⟩
        · simp [hd] at h
        · simp [hd] at h
        · simp only [hd, Option.some.injEq] at h
          exact congrArg Except.ok h

/-- The input that the relay submits for one of the web server's. -/
def rpcInput (i : TxInputJson) (x : TransactionInput Hash) : RpcTransactionInput Hash :=
  ⟨x.previousOutpoint, x.signatureScript, x.sequence, i.sigOpCount⟩

def rpcOutput (o : TransactionOutput Hash) : RpcTransactionOutput := ⟨o.value, o.scriptPublicKey⟩

theorem relayInputs_of_mapM {version : Fin (2 ^ 16)} {l : List TxInputJson}
    {inputs : List (TransactionInput Hash)} (n : ℕ)
    (h : l.mapM (transactionInput lib version) = some inputs) :
    relayInputs lib n (l.map relayInput) = .ok (List.zipWith rpcInput l inputs) := by
  induction l generalizing n inputs with
  | nil =>
    cases h
    rfl
  | cons i l ih =>
    obtain ⟨x, rest, hx, hrest, rfl⟩ := mapM_eq_some_cons.mp h
    obtain ⟨id, hid, hx⟩ := Option.bind_eq_some_iff.mp hx
    obtain ⟨script, hscript, hx⟩ := Option.bind_eq_some_iff.mp hx
    cases hx
    exact Fallible.bind_ok_iff.mpr ⟨id, okOr_ok.mpr hid, Fallible.bind_ok_iff.mpr
      ⟨script, relayHex_ok.mpr hscript, Fallible.bind_ok_iff.mpr ⟨_, ih (n + 1) hrest, rfl⟩⟩⟩

theorem relayOutputs_of_mapM {l : List TxOutputJson} {outputs : List (TransactionOutput Hash)}
    (h : l.mapM (transactionOutput lib) = some outputs) :
    relayOutputs lib (l.map relayOutput) = .ok (outputs.map rpcOutput) := by
  induction l generalizing outputs with
  | nil =>
    cases h
    rfl
  | cons o l ih =>
    obtain ⟨x, rest, hx, hrest, rfl⟩ := mapM_eq_some_cons.mp h
    obtain ⟨script, hscript, hx⟩ := Option.bind_eq_some_iff.mp hx
    obtain ⟨covenant, -, hx⟩ := Option.bind_eq_some_iff.mp hx
    cases hx
    exact Fallible.bind_ok_iff.mpr ⟨script, relayScript_ok.mpr hscript,
      Fallible.bind_ok_iff.mpr ⟨_, ih hrest, rfl⟩⟩

theorem inputs_kept_iff {version : Fin (2 ^ 16)} {l : List TxInputJson}
    {inputs : List (TransactionInput Hash)}
    (h : l.mapM (transactionInput lib version) = some inputs) :
    (List.zipWith rpcInput l inputs).map RpcTransactionInput.transaction = inputs ↔
      version = 0 ∨ inputs = [] := by
  induction l generalizing inputs with
  | nil =>
    cases h
    simp
  | cons i l ih =>
    obtain ⟨x, rest, hx, hrest, rfl⟩ := mapM_eq_some_cons.mp h
    obtain ⟨id, hid, hx⟩ := Option.bind_eq_some_iff.mp hx
    obtain ⟨script, hscript, hx⟩ := Option.bind_eq_some_iff.mp hx
    cases hx
    have hih := ih hrest
    by_cases hv : version = 0
    · subst hv
      simpa [rpcInput, RpcTransactionInput.transaction] using hih
    · have hle : 1 ≤ version := Fin.one_le_of_ne_zero hv
      simp [rpcInput, RpcTransactionInput.transaction, hv, hle]

theorem outputs_kept_iff (outputs : List (TransactionOutput Hash)) :
    (outputs.map rpcOutput).map RpcTransactionOutput.transaction = outputs ↔
      ∀ o ∈ outputs, o.covenant = none := by
  induction outputs with
  | nil => simp
  | cons o outputs ih =>
    obtain ⟨value, script, covenant⟩ := o
    simp only [List.map_cons, List.cons.injEq, ih, List.forall_mem_cons, rpcOutput,
      RpcTransactionOutput.transaction, TransactionOutput.mk.injEq, true_and]
    exact and_congr_left fun _ => eq_comm

/-- What the relay submits for a transaction that the web server reads. -/
theorem relayOfJson_of {tx : TxJson} {scheduled : Transaction Hash Subnetwork} {payload : Option Text}
    (m : Fin (2 ^ 64)) (hpayload : payload.getD [] = tx.payload)
    (h : transactionOfJson lib tx = some scheduled) :
    ∃ rpc, relayOfJson lib (relayTx payload m tx) = .ok rpc ∧
      rpc.transaction.version = scheduled.version ∧
      (rpc.transaction.inputs = [] → scheduled.inputs = []) ∧ (rpc.transaction = scheduled ↔
      (scheduled.version = 0 ∨ scheduled.inputs = []) ∧ ∀ o ∈ scheduled.outputs, o.covenant = none) := by
  obtain ⟨inputs, hinputs, h⟩ := Option.bind_eq_some_iff.mp h
  obtain ⟨outputs, houtputs, h⟩ := Option.bind_eq_some_iff.mp h
  obtain ⟨subnetwork, hsub, h⟩ := Option.bind_eq_some_iff.mp h
  obtain ⟨bytes, hbytes, h⟩ := Option.bind_eq_some_iff.mp h
  cases h
  refine ⟨⟨tx.version, List.zipWith rpcInput tx.inputs inputs, outputs.map rpcOutput, tx.lockTime,
    subnetwork, tx.gas, bytes, m⟩, ?_, rfl, ?_, ?_⟩
  · refine Fallible.bind_ok_iff.mpr ⟨_, relayInputs_of_mapM 0 hinputs, ?_⟩
    refine Fallible.bind_ok_iff.mpr ⟨_, relayOutputs_of_mapM houtputs, ?_⟩
    refine Fallible.bind_ok_iff.mpr ⟨_, okOr_ok.mpr hsub, ?_⟩
    exact Fallible.bind_ok_iff.mpr ⟨_, relayHex_ok.mpr (hpayload ▸ hbytes), rfl⟩
  · intro hnil
    have hzip : List.zipWith rpcInput tx.inputs inputs = [] := List.map_eq_nil_iff.mp hnil
    rcases List.zipWith_eq_nil_iff.mp hzip with hl | hl
    · rw [hl] at hinputs
      cases hinputs
      rfl
    · exact hl
  · rw [← inputs_kept_iff hinputs, ← outputs_kept_iff]
    simp [RpcTransaction.transaction]


/-! ## A transaction within the transaction -/

/-- A payload that is null is none to the relay. -/
def nullAsEmpty : Json → Json
  | .null => .str []
  | j => j

/-- The object as the relay sees it: without the members it does not know. -/
def seen (j : Json) : Json :=
  ((j.changed "inputs" (Json.eachItem (Json.without "computeBudget"))).changed "outputs"
    (Json.eachItem (Json.without "covenant"))).changed "payload" nullAsEmpty

theorem relayInput_without (j : Json) :
    RelayTxInputJson.read (j.without "computeBudget") = RelayTxInputJson.read j := by
  simp only [RelayTxInputJson.read, Json.field, Json.fieldOr, Json.fits_without]
  rw [Json.slot_without (by simp), Json.slot_without (by simp), Json.slot_without (by simp),
    Json.slot_without (by simp)]

theorem relayOutput_without (j : Json) :
    RelayTxOutputJson.read (j.without "covenant") = RelayTxOutputJson.read j := by
  simp only [RelayTxOutputJson.read, Json.field, Json.fits_without]
  rw [Json.slot_without (by simp), Json.slot_without (by simp)]

section
variable {j : Json}

theorem slot_seen {names : List String} {i : ℕ} (hin : "inputs" ∉ names) (hout : "outputs" ∉ names)
    (hpay : "payload" ∉ names) : (seen j).slot names i = j.slot names i := by
  rw [seen, Json.slot_changed hpay, Json.slot_changed hout, Json.slot_changed hin]

theorem isObject_changed {key : String} {f : Json → Json} :
    (j.changed key f).isObject = j.isObject := by
  cases j <;> rfl

theorem slot_seen_inputs (hj : j.isObject = true) {i : ℕ} : (seen j).slot ["inputs"] i =
    (j.slot ["inputs"] i).map (Option.map (Json.eachItem (Json.without "computeBudget"))) := by
  rw [seen, Json.slot_changed (by simp), Json.slot_changed (by simp), Json.slot_changed_self hj]

theorem slot_seen_outputs (hj : j.isObject = true) {i : ℕ} : (seen j).slot ["outputs"] i =
    (j.slot ["outputs"] i).map (Option.map (Json.eachItem (Json.without "covenant"))) := by
  rw [seen, Json.slot_changed (by simp), Json.slot_changed_self (by rw [isObject_changed, hj]),
    Json.slot_changed (by simp)]

theorem slot_seen_payload (hj : j.isObject = true) {i : ℕ} : (seen j).slot ["payload"] i =
    (j.slot ["payload"] i).map (Option.map nullAsEmpty) := by
  rw [seen, Json.slot_changed_self (by rw [isObject_changed, isObject_changed, hj]),
    Json.slot_changed (by simp), Json.slot_changed (by simp)]

theorem mass_seen : mass (seen j) = mass j :=
  Json.fieldOr_congr (slot_seen (by simp) (by simp) (by simp))

theorem fits_seen {n : ℕ} : (seen j).fits n = j.fits n := by
  simp only [seen, Json.fits_changed]

theorem itemsFit_seen (hj : j.isObject = true) : ItemsFit (seen j) ↔ ItemsFit j := by
  unfold ItemsFit Json.fieldFits
  rw [slot_seen_inputs hj, slot_seen_outputs hj]
  rcases j.slot ["inputs"] 1 with _ | _ | x <;> rcases j.slot ["outputs"] 2 with _ | _ | y <;>
    simp [Json.itemsFit_eachItem]

theorem inputs_seen (hj : j.isObject = true) :
    (seen j).field ["inputs"] 1 (Json.items RelayTxInputJson.read) =
      j.field ["inputs"] 1 (Json.items RelayTxInputJson.read) := by
  unfold Json.field
  rw [slot_seen_inputs hj]
  rcases j.slot ["inputs"] 1 with _ | _ | x
  · rfl
  · rfl
  · simp [Json.items_eachItem, relayInput_without]

theorem outputs_seen (hj : j.isObject = true) :
    (seen j).field ["outputs"] 2 (Json.items RelayTxOutputJson.read) =
      j.field ["outputs"] 2 (Json.items RelayTxOutputJson.read) := by
  unfold Json.field
  rw [slot_seen_outputs hj]
  rcases j.slot ["outputs"] 2 with _ | _ | x
  · rfl
  · rfl
  · simp [Json.items_eachItem, relayOutput_without]

/-- The payload is no other, and no longer null. -/
theorem payload_seen (hj : j.isObject = true) :
    ((seen j).fieldOr ["payload"] 6 none (Json.optional Json.text)).map (·.getD []) =
      (j.fieldOr ["payload"] 6 none (Json.optional Json.text)).map (·.getD []) ∧
    (seen j).fieldOr ["payload"] 6 [] Json.text =
      (j.fieldOr ["payload"] 6 none (Json.optional Json.text)).map (·.getD []) := by
  unfold Json.fieldOr
  rw [slot_seen_payload hj]
  rcases j.slot ["payload"] 6 with _ | _ | x
  · exact ⟨rfl, rfl⟩
  · exact ⟨rfl, rfl⟩
  · cases x <;> exact ⟨rfl, rfl⟩

/-- Of the object that it sees, the relay submits what it submits of the whole. -/
theorem relay_seen (hj : j.isObject = true) :
    (RelayTxJson.read (seen j)).map (relayOfJson lib) = (RelayTxJson.read j).map (relayOfJson lib) := by
  have hpayload := (payload_seen hj).1
  have same {names : List String} (i : ℕ) (hin : "inputs" ∉ names) (hout : "outputs" ∉ names)
      (hpay : "payload" ∉ names) : (seen j).slot names i = j.slot names i := slot_seen hin hout hpay
  unfold RelayTxJson.read
  rw [fits_seen, inputs_seen hj, outputs_seen hj,
    Json.field_congr (same 0 (by simp) (by simp) (by simp)),
    Json.field_congr (same 3 (by simp) (by simp) (by simp)),
    Json.field_congr (same 4 (by simp) (by simp) (by simp)),
    Json.fieldOr_congr (same 5 (by simp) (by simp) (by simp)),
    Json.fieldOr_congr (same 7 (by simp) (by simp) (by simp))]
  generalize (seen j).fieldOr ["payload"] 6 none (Json.optional Json.text) = p at hpayload ⊢
  generalize j.fieldOr ["payload"] 6 none (Json.optional Json.text) = q at hpayload ⊢
  have hpq (f : Option Text → Option RelayTxJson)
      (hf : ∀ a b, a.getD [] = b.getD [] → (f a).map (relayOfJson lib) = (f b).map (relayOfJson lib)) :
      (p.bind f).map (relayOfJson lib) = (q.bind f).map (relayOfJson lib) := by
    cases p with
    | none =>
      cases q with
      | none => rfl
      | some b => cases hpayload
    | some a =>
      cases q with
      | none => cases hpayload
      | some b => exact hf a b (Option.some.inj hpayload)
  split
  swap
  · rfl
  rcases j.field ["version"] 0 (Json.uint 16) with _ | version
  · rfl
  rcases j.field ["inputs"] 1 (Json.items RelayTxInputJson.read) with _ | inputs
  · rfl
  rcases j.field ["outputs"] 2 (Json.items RelayTxOutputJson.read) with _ | outputs
  · rfl
  rcases j.field ["lockTime"] 3 (Json.uint 64) with _ | lockTime
  · rfl
  rcases j.field ["subnetworkId"] 4 Json.text with _ | subnetwork
  · rfl
  rcases j.fieldOr ["gas"] 5 0 (Json.uint 64) with _ | gas
  · rfl
  refine hpq _ fun a b hab => ?_
  rcases j.fieldOr ["mass"] 7 0 (Json.uint 64) with _ | m
  · rfl
  · exact congrArg some (by simp only [relayOfJson, hab])

/-- The web server reads every item that the relay sees. -/
theorem readInput_seen {r : RelayTxInputJson}
    (h : RelayTxInputJson.read (j.without "computeBudget") = some r) :
    ∃ i, TxInputJson.read (j.without "computeBudget") = some i := by
  simp only [RelayTxInputJson.read, Option.ite_none_right_eq_some, Option.bind_eq_bind,
    Option.bind_eq_some_iff, Option.some.injEq] at h
  obtain ⟨hfits, outpoint, hpoint, script, hscript, sequence, hsequence, count, hcount, -⟩ := h
  have hbudget : (j.without "computeBudget").slot ["computeBudget"] 4 = some none := by
    cases j with
    | obj members => exact Json.slot_without_self
    | arr js =>
      have hlen : js.length ≤ 4 := by simpa [Json.without, Json.fits] using hfits
      exact congrArg some (List.getElem?_eq_none hlen)
    | null | bool _ | int _ | float _ | str _ => cases hfits
  rw [TxInputJson.read, if_pos (Json.fits_mono (by omega) hfits), hpoint, hscript, hsequence, hcount,
    Json.fieldOr, hbudget]
  exact ⟨_, rfl⟩

theorem readOutput_seen {r : RelayTxOutputJson}
    (h : RelayTxOutputJson.read (j.without "covenant") = some r) :
    ∃ o, TxOutputJson.read (j.without "covenant") = some o ∧ o.covenant = none := by
  simp only [RelayTxOutputJson.read, Option.ite_none_right_eq_some, Option.bind_eq_bind,
    Option.bind_eq_some_iff, Option.some.injEq] at h
  obtain ⟨hfits, amount, hamount, script, hscript, -⟩ := h
  have hcovenant : (j.without "covenant").slot ["covenant"] 2 = some none := by
    cases j with
    | obj members => exact Json.slot_without_self
    | arr js =>
      have hlen : js.length ≤ 2 := by simpa [Json.without, Json.fits] using hfits
      exact congrArg some (List.getElem?_eq_none hlen)
    | null | bool _ | int _ | float _ | str _ => cases hfits
  rw [TxOutputJson.read, if_pos (Json.fits_mono (by omega) hfits), hamount, hscript,
    Json.fieldOr, hcovenant]
  exact ⟨_, rfl, rfl⟩

/-- Reads of the items as the relay sees them. -/
theorem items_seen {α β : Type} {key k : String} {i : ℕ} {read : Json → Option α}
    {read' : Json → Option β} {p : β → Prop} {l : List α}
    (hslot : (seen j).slot [key] i = (j.slot [key] i).map (Option.map (Json.eachItem (Json.without k))))
    (hread : ∀ x a, read (Json.without k x) = some a → ∃ b, read' (Json.without k x) = some b ∧ p b)
    (h : (seen j).field [key] i (Json.items read) = some l) :
    ∃ l', (seen j).field [key] i (Json.items read') = some l' ∧ ∀ b ∈ l', p b := by
  unfold Json.field at h ⊢
  rw [hslot] at h ⊢
  obtain ⟨v, hv, h⟩ := Option.bind_eq_some_iff.mp h
  obtain ⟨w, hw, rfl⟩ := Option.map_eq_some_iff.mp hv
  obtain ⟨x, hx, h⟩ := Option.bind_eq_some_iff.mp h
  obtain ⟨y, rfl, rfl⟩ := Option.map_eq_some_iff.mp hx
  rw [hw]
  rw [Json.items_eachItem] at h
  have hitems : ∃ l', Json.items read' (Json.eachItem (Json.without k) y) = some l' ∧ ∀ b ∈ l', p b := by
    rw [Json.items_eachItem]
    cases y with
    | arr js => exact exists_mapM (fun x a hx => hread x a hx) h
    | obj _ | null | bool _ | int _ | float _ | str _ => cases h
  obtain ⟨l', hl', hp⟩ := hitems
  exact ⟨l', hl', hp⟩

theorem read_seen (hj : j.isObject = true) {rtx : RelayTxJson}
    (h : RelayTxJson.read (seen j) = some rtx) :
    ∃ tx, TxJson.read (seen j) = some tx ∧ ∀ o ∈ tx.outputs, o.covenant = none := by
  simp only [RelayTxJson.read, Option.ite_none_right_eq_some, Option.bind_eq_bind,
    Option.bind_eq_some_iff, Option.some.injEq] at h
  obtain ⟨-, version, hversion, inputs, hinputs, outputs, houtputs, lockTime, hlock, subnetwork,
    hsub, gas, hgas, payload, hpayload, -⟩ := h
  obtain ⟨inputs', hinputs', -⟩ := items_seen (p := fun _ => True) (slot_seen_inputs hj)
    (fun x a hx => (readInput_seen hx).imp fun _ hi => ⟨hi, trivial⟩) hinputs
  obtain ⟨outputs', houtputs', hnone⟩ := items_seen (slot_seen_outputs hj)
    (fun x a hx => readOutput_seen hx) houtputs
  have hfits : (seen j).fits 7 = true := by
    rw [fits_seen]
    cases j with
    | obj members => rfl
    | arr _ | null | bool _ | int _ | float _ | str _ => cases hj
  have hpay : (seen j).fieldOr ["payload"] 6 [] Json.text = some (payload.getD []) := by
    rw [(payload_seen hj).2, ← (payload_seen hj).1, hpayload]
    rfl
  rw [TxJson.read, if_pos hfits, hversion, hinputs', houtputs', hlock, hsub, hgas, hpay]
  exact ⟨_, rfl, hnone⟩

end

theorem transactionInput_of {l : List TxInputJson} {rs : List (RpcTransactionInput Hash)} {n : ℕ}
    (version : Fin (2 ^ 16)) (h : relayInputs lib n (l.map relayInput) = .ok rs) :
    ∃ inputs, l.mapM (transactionInput lib version) = some inputs := by
  induction l generalizing n rs with
  | nil => exact ⟨[], rfl⟩
  | cons i l ih =>
    obtain ⟨id, hid, h⟩ := Fallible.bind_ok_iff.mp h
    obtain ⟨script, hscript, h⟩ := Fallible.bind_ok_iff.mp h
    obtain ⟨rest, hrest, -⟩ := Fallible.bind_ok_iff.mp h
    obtain ⟨inputs, hinputs⟩ := ih hrest
    have hi : transactionInput lib version i = some ⟨⟨id, i.previousOutpoint.index⟩, script, i.sequence,
        if 1 ≤ version then .computeBudget i.computeBudget else .sigOpCount i.sigOpCount⟩ :=
      Option.bind_eq_some_iff.mpr ⟨id, okOr_ok.mp hid,
        Option.bind_eq_some_iff.mpr ⟨script, relayHex_ok.mp hscript, rfl⟩⟩
    exact ⟨_, mapM_eq_some_cons.mpr ⟨_, inputs, hi, hinputs, rfl⟩⟩

theorem transactionOutput_of {l : List TxOutputJson} {rs : List RpcTransactionOutput}
    (hnone : ∀ o ∈ l, o.covenant = none) (h : relayOutputs lib (l.map relayOutput) = .ok rs) :
    ∃ outputs, l.mapM (transactionOutput lib) = some outputs ∧
      ∀ o ∈ outputs, o.covenant = none := by
  induction l generalizing rs with
  | nil => exact ⟨[], rfl, nofun⟩
  | cons o l ih =>
    obtain ⟨ho, hl⟩ := List.forall_mem_cons.mp hnone
    obtain ⟨script, hscript, h⟩ := Fallible.bind_ok_iff.mp h
    obtain ⟨rest, hrest, -⟩ := Fallible.bind_ok_iff.mp h
    obtain ⟨outputs, houtputs, hkept⟩ := ih hl hrest
    refine ⟨⟨o.amount, script, none⟩ :: outputs, mapM_eq_some_cons.mpr ⟨_, outputs, ?_, houtputs, rfl⟩,
      List.forall_mem_cons.mpr ⟨rfl, hkept⟩⟩
    refine Option.bind_eq_some_iff.mpr ⟨script, relayScript_ok.mp hscript, ?_⟩
    rw [ho]
    rfl

/-- The web server builds every transaction that the relay builds. -/
theorem transactionOfJson_of {tx : TxJson} {payload : Option Text} {m : Fin (2 ^ 64)}
    {rpc : RpcTransaction Hash Subnetwork} (hpayload : payload.getD [] = tx.payload)
    (hnone : ∀ o ∈ tx.outputs, o.covenant = none)
    (h : relayOfJson lib (relayTx payload m tx) = .ok rpc) :
    ∃ scheduled, transactionOfJson lib tx = some scheduled ∧
      ∀ o ∈ scheduled.outputs, o.covenant = none := by
  obtain ⟨rs, hinputs, h⟩ := Fallible.bind_ok_iff.mp h
  obtain ⟨os, houtputs, h⟩ := Fallible.bind_ok_iff.mp h
  obtain ⟨subnetwork, hsub, h⟩ := Fallible.bind_ok_iff.mp h
  obtain ⟨bytes, hbytes, -⟩ := Fallible.bind_ok_iff.mp h
  obtain ⟨inputs, hinputs⟩ := transactionInput_of tx.version hinputs
  obtain ⟨outputs, houtputs, hkept⟩ := transactionOutput_of hnone houtputs
  have hbytes : hexDecode tx.payload = some bytes := hpayload ▸ relayHex_ok.mp hbytes
  refine ⟨⟨tx.version, inputs, outputs, tx.lockTime, subnetwork, tx.gas, bytes⟩, ?_, hkept⟩
  exact Option.bind_eq_some_iff.mpr ⟨_, hinputs, Option.bind_eq_some_iff.mpr ⟨_, houtputs,
    Option.bind_eq_some_iff.mpr ⟨_, okOr_ok.mp hsub, Option.bind_eq_some_iff.mpr ⟨_, hbytes, rfl⟩⟩⟩⟩

/-! ## What the relay carries -/

/-- A spending transaction of version 0 asks for signature operations, a later one for budgets. -/
theorem scheduled_limits {tx : TxJson} {scheduled : Transaction Hash Subnetwork}
    {rpc : RpcTransaction Hash Subnetwork} (h : transactionOfJson lib tx = some scheduled)
    (hrpc : rpc.transaction = scheduled) : scheduled.version = 0 ∨ scheduled.inputs = [] := by
  obtain ⟨inputs, hinputs, h⟩ := Option.bind_eq_some_iff.mp h
  obtain ⟨outputs, -, h⟩ := Option.bind_eq_some_iff.mp h
  obtain ⟨subnetwork, -, h⟩ := Option.bind_eq_some_iff.mp h
  obtain ⟨bytes, -, h⟩ := Option.bind_eq_some_iff.mp h
  cases h
  have hin : rpc.inputs.map RpcTransactionInput.transaction = inputs :=
    congrArg Transaction.inputs hrpc
  generalize tx.inputs = l at hinputs
  rcases l with _ | ⟨i, l⟩
  · cases hinputs
    exact .inr rfl
  obtain ⟨x, rest, hx, -, rfl⟩ := mapM_eq_some_cons.mp hinputs
  obtain ⟨id, -, hx⟩ := Option.bind_eq_some_iff.mp hx
  obtain ⟨script, -, hx⟩ := Option.bind_eq_some_iff.mp hx
  cases hx
  by_contra hnot
  have hle : 1 ≤ tx.version := Fin.one_le_of_ne_zero fun h0 => hnot (.inl h0)
  generalize rpc.inputs = rs at hin
  rcases rs with _ | ⟨r, rs⟩
  · cases hin
  · have hlimit := congrArg TransactionInput.limit (List.cons.inj hin).1
    rw [if_pos hle] at hlimit
    cases hlimit

/-- What the relay submits of an object is what the web server reads there. -/
theorem relay_of_read {j : Json} {tx : TxJson} {scheduled : Transaction Hash Subnetwork}
    (hread : TxJson.read j = some tx) (h : transactionOfJson lib tx = some scheduled) :
    (∃ rtx rpc, RelayTxJson.read j = some rtx ∧ relayOfJson lib rtx = .ok rpc ∧
      rpc.transaction = scheduled) ↔
    ItemsFit j ∧ (mass j).isSome ∧ (scheduled.version = 0 ∨ scheduled.inputs = []) ∧
      ∀ o ∈ scheduled.outputs, o.covenant = none := by
  obtain ⟨payload, hpayload, hrelay⟩ := read_relayTx hread
  constructor
  · rintro ⟨rtx, rpc, hrtx, hrpc, heq⟩
    obtain ⟨hitems, m, hm, rfl⟩ := (hrelay rtx).mp hrtx
    obtain ⟨rpc', hrpc', -, -, hiff⟩ := relayOfJson_of m hpayload h
    obtain rfl : rpc' = rpc := Except.ok.inj (hrpc'.symm.trans hrpc)
    exact ⟨hitems, by rw [hm]; rfl, hiff.mp heq⟩
  · rintro ⟨hitems, hmass, hkept⟩
    obtain ⟨m, hm⟩ := Option.isSome_iff_exists.mp hmass
    obtain ⟨rpc, hrpc, -, -, hiff⟩ := relayOfJson_of m hpayload h
    exact ⟨_, rpc, (hrelay _).mpr ⟨hitems, m, hm, rfl⟩, hrpc, hiff.mpr hkept⟩

/-- An object that the transaction holds under `transaction` is, as the relay sees it, the same
transaction; what the relay reads has a `mass` that fits, if any, and no places too many; the
transaction has neither compute budgets nor covenants. -/
structure Carried (lib : Consensus Hash Subnetwork) (transaction : Json)
    (scheduled : Transaction Hash Subnetwork) : Prop where
  nested : ∀ t, (innerTx transaction).get "transaction" = some t → t.isObject = true →
    (TxJson.read (seen t)).bind (transactionOfJson lib) = some scheduled
  mass : (mass (relayInner (innerTx transaction))).isSome
  items : ItemsFit (relayInner (innerTx transaction))
  limits : scheduled.version = 0 ∨ scheduled.inputs = []
  covenants : ∀ o ∈ scheduled.outputs, o.covenant = none

theorem submitted {transaction : Json} {rpc : RpcTransaction Hash Subnetwork} :
    internalSubmitTx lib (submitBody transaction) = .ok rpc ↔
      ∃ rtx, RelayTxJson.read (relayInner (innerTx transaction)) = some rtx ∧
        relayOfJson lib rtx = .ok rpc := by
  have hbody : (submitBody transaction).field ["transaction"] 0 some = some (innerTx transaction) := by
    simp [submitBody, Json.field, Json.slot, Json.given]
  constructor
  · intro h
    obtain ⟨t, ht, h⟩ := Fallible.bind_ok_iff.mp h
    obtain rfl : innerTx transaction = t := Option.some.inj (hbody.symm.trans (okOr_ok.mp ht))
    cases hrelay : relayRpcTransaction lib (innerTx transaction) with
    | error e =>
      rw [hrelay] at h
      cases h
    | ok tx =>
      rw [hrelay] at h
      cases h
      obtain ⟨rtx, hread, hrpc⟩ := Fallible.bind_ok_iff.mp hrelay
      exact ⟨rtx, okOr_ok.mp hread, hrpc⟩
  · rintro ⟨rtx, hread, hrpc⟩
    have hrelay : relayRpcTransaction lib (innerTx transaction) = .ok rpc :=
      Fallible.bind_ok_iff.mpr ⟨rtx, okOr_ok.mpr hread, hrpc⟩
    refine Fallible.bind_ok_iff.mpr ⟨_, okOr_ok.mpr hbody, ?_⟩
    rw [hrelay]
    rfl

theorem relay_carries {transaction : Json} {scheduled : Transaction Hash Subnetwork}
    (h : scheduledTransaction lib transaction = some scheduled) :
    (∃ rpc, internalSubmitTx lib (submitBody transaction) = .ok rpc ∧ rpc.transaction = scheduled) ↔
      Carried lib transaction scheduled := by
  obtain ⟨tx, hread, htx⟩ := Option.bind_eq_some_iff.mp h
  have hsubmitted : (∃ rpc, internalSubmitTx lib (submitBody transaction) = .ok rpc ∧
      rpc.transaction = scheduled) ↔
      ∃ rtx rpc, RelayTxJson.read (relayInner (innerTx transaction)) = some rtx ∧
        relayOfJson lib rtx = .ok rpc ∧ rpc.transaction = scheduled := by
    simp only [submitted]
    exact ⟨fun ⟨rpc, ⟨rtx, hr, hrpc⟩, he⟩ => ⟨rtx, rpc, hr, hrpc, he⟩,
      fun ⟨rtx, rpc, hr, hrpc, he⟩ => ⟨rpc, ⟨rtx, hr, hrpc⟩, he⟩⟩
  rw [hsubmitted]
  by_cases hnested : ∃ t, (innerTx transaction).get "transaction" = some t ∧ t.isObject = true
  · obtain ⟨t, ht, hobject⟩ := hnested
    have hinner : relayInner (innerTx transaction) = t := by
      simp only [relayInner, ht, hobject, if_true]
    rw [hinner]
    constructor
    · rintro ⟨rtx, rpc, hrtx, hrpc, heq⟩
      -- the relay reads the nested object, and as much of what it sees of it
      have hseen : (RelayTxJson.read (seen t)).map (relayOfJson lib) =
          (RelayTxJson.read t).map (relayOfJson lib) := relay_seen hobject
      rw [hrtx] at hseen
      obtain ⟨rtx', hrtx', hsame⟩ := Option.map_eq_some_iff.mp hseen
      obtain ⟨tx', hread', hnone⟩ := read_seen hobject hrtx'
      obtain ⟨payload, hpayload, hrelay⟩ := read_relayTx hread'
      obtain ⟨hitems, m, hm, rfl⟩ := (hrelay rtx').mp hrtx'
      obtain ⟨scheduled', htx', hkept⟩ := transactionOfJson_of hpayload hnone (hsame.trans hrpc)
      obtain ⟨rpc', hrpc', hversion, hnil, hiff⟩ := relayOfJson_of m hpayload htx'
      obtain rfl : rpc' = rpc := Except.ok.inj (hrpc'.symm.trans (hsame.trans hrpc))
      have hlimits := scheduled_limits htx heq
      have hsame' : rpc'.transaction = scheduled' := by
        refine hiff.mpr ⟨?_, hkept⟩
        rw [← heq, hversion] at hlimits
        exact hlimits.imp_right hnil
      obtain rfl : scheduled' = scheduled := hsame'.symm.trans heq
      refine ⟨fun t' ht' _ => ?_, ?_, ?_, (hiff.mp heq).1, hkept⟩
      · obtain rfl : t = t' := Option.some.inj (ht.symm.trans ht')
        exact Option.bind_eq_some_iff.mpr ⟨tx', hread', htx'⟩
      · rw [hinner, ← mass_seen, hm]
        rfl
      · rw [hinner]
        exact (itemsFit_seen hobject).mp hitems
    · intro hcarried
      obtain ⟨tx', hread', htx'⟩ := Option.bind_eq_some_iff.mp (hcarried.nested t ht hobject)
      have hmass := hcarried.mass
      have hitems := hcarried.items
      rw [hinner] at hmass hitems
      obtain ⟨rtx', rpc, hrtx', hrpc, heq⟩ := (relay_of_read hread' htx').mpr
        ⟨(itemsFit_seen hobject).mpr hitems, by rwa [mass_seen], hcarried.limits, hcarried.covenants⟩
      have hseen : (RelayTxJson.read (seen t)).map (relayOfJson lib) =
          (RelayTxJson.read t).map (relayOfJson lib) := relay_seen hobject
      rw [hrtx'] at hseen
      obtain ⟨rtx, hrtx, hsame⟩ := Option.map_eq_some_iff.mp hseen.symm
      exact ⟨rtx, rpc, hrtx, hsame.trans hrpc, heq⟩
  · have hinner : relayInner (innerTx transaction) = innerTx transaction := by
      unfold relayInner
      cases ht : (innerTx transaction).get "transaction" with
      | none => rfl
      | some t => exact if_neg fun hobject => hnested ⟨t, ht, hobject⟩
    rw [hinner, relay_of_read hread htx]
    constructor
    · rintro ⟨hitems, hmass, hlimits, hcovenants⟩
      refine ⟨fun t ht hobject => absurd ⟨t, ht, hobject⟩ hnested, ?_, ?_, hlimits, hcovenants⟩
      · rwa [hinner]
      · rwa [hinner]
    · intro hcarried
      have hmass := hcarried.mass
      have hitems := hcarried.items
      rw [hinner] at hmass hitems
      exact ⟨hitems, hmass, hcarried.limits, hcarried.covenants⟩

end

end KaChatIndexer.ScheduledCarried
