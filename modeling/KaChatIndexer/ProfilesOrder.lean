import KaChatIndexer.ProfilesRestart

/-!
# Profile records in any order

The records of a set of transactions leave the same profiles in whatever order they are applied: the
register of an address ends with the greatest of its records and of what was stored.
-/
namespace KaChatIndexer.ProfilesOrder
open ByteStrings NamesState NamesEnv NamesProfile NamesRegistry NamesApply ProfilesFollower
open FinmapPatch ReplayLog NewestWins ProfilesRestart

section
variable (env : Env)

/-- The record of a transaction, as a write to the profile of its script. -/
def recordWrite (tx : Tx) : Option ProfileWrite :=
  (profileRecord env tx).map fun r => ⟨tx.acceptingBlock, r.1, r.2⟩

/-- The greatest record of a script: of the stored one and those of the transactions. -/
def Greatest (stored : Option ProfileRow) (txs : List Tx) (spk : Bytes) : Option ProfileRow → Prop
  | none => stored = none ∧ ∀ tx ∈ txs, ∀ row, profileRecord env tx ≠ some (spk, row)
  | some row => (stored = some row ∨ ∃ tx ∈ txs, profileRecord env tx = some (spk, row)) ∧
      (∀ old ∈ stored, orderGt old.2 row.2 = false) ∧
      ∀ tx ∈ txs, ∀ row', profileRecord env tx = some (spk, row') → orderGt row'.2 row.2 = false

end

/-- An input spends a script that is known, and it is that of the first output. -/
def SelfSend (tx : Tx) : Prop :=
  ∃ o, tx.outputs.head? = some o ∧ ∃ i ∈ tx.inputs, i.spentScript ≠ [] ∧ i.spentScript = o.scriptPublicKey

section
variable {env : Env} {tx : Tx} {spk : Bytes} {row : ProfileRow}

/-- A record is made of its transaction alone. -/
theorem profileRecord_iff : profileRecord env tx = some (spk, row) ↔
    (isUtf8 tx.payload = true ∧ stripPrefix (ascii "kchat:1:profile:") tx.payload = some row.1 ∧
      (parseProfile env row.1).isSome) ∧
    (∃ o, tx.outputs.head? = some o ∧ o.scriptPublicKey = spk) ∧
    (∃ i ∈ tx.inputs, i.spentScript ≠ [] ∧ i.spentScript = spk) ∧ row.2 = (tx.acceptingDaa, tx.id) := by
  obtain ⟨json, order⟩ := row
  unfold profileRecord
  simp only [Option.bind_eq_bind, Option.bind_eq_some_iff, Option.guard_eq_some', List.any_eq_true,
    decide_eq_true_eq, Option.map_eq_some_iff, Option.some.injEq, Prod.mk.injEq,
    Option.isSome_iff_exists, Bool.and_eq_true]
  constructor
  · rintro ⟨-, htext, _, hjson, profile, hprofile, _, houtput, -, hinput, rfl, rfl, rfl⟩
    exact ⟨⟨htext, hjson, profile, hprofile⟩, houtput, hinput, rfl⟩
  · rintro ⟨⟨htext, hjson, profile, hprofile⟩, houtput, hinput, rfl⟩
    exact ⟨(), htext, json, hjson, profile, hprofile, spk, houtput, (), hinput, rfl, rfl, rfl⟩

theorem record_selfSend (h : profileRecord env tx = some (spk, row)) : SelfSend tx := by
  obtain ⟨-, ⟨o, ho, rfl⟩, hinput, -⟩ := profileRecord_iff.mp h
  exact ⟨o, ho, hinput⟩

theorem record_order (h : profileRecord env tx = some (spk, row)) :
    row.2 = (tx.acceptingDaa, tx.id) := (profileRecord_iff.mp h).2.2.2

/-- A payment to an address from elsewhere changes no profile. -/
theorem unchanged_of_not_selfSend (h : ¬ SelfSend tx) (r : Registry) :
    (applyProfileOnly env r tx).1.profiles = r.profiles := by
  cases hrecord : profileRecord env tx with
  | none => simp [applyProfileOnly, applyProfile, hrecord]
  | some x => exact absurd (record_selfSend hrecord) h

theorem applyProfileOnly_lookup (r : Registry) :
    (fun k => (applyProfileOnly env r tx).1.profiles.lookup k) =
      (registers rowGt).run (fun k => r.profiles.lookup k) (recordWrite env tx).toList := by
  cases hrecord : profileRecord env tx with
  | none => simp [applyProfileOnly, applyProfile, hrecord, recordWrite, Machine.run]
  | some x =>
    obtain ⟨spk, row⟩ := x
    have hwrite : recordWrite env tx = some ⟨tx.acceptingBlock, spk, row⟩ := by
      rw [recordWrite, hrecord, Option.map_some]
    rw [hwrite]
    change _ = write rowGt _ _
    unfold write newer
    by_cases hnew : (r.profiles.lookup spk).all (fun prior => orderGt row.2 prior.2) = true
    · have hnew' : (r.profiles.lookup spk).all (fun prior => rowGt row prior) = true := hnew
      rw [if_pos hnew']
      simp only [applyProfileOnly, applyProfile, hrecord, hnew, if_true]
      funext k
      rw [lookup_insert_of, Function.update_apply]
    · have hnew' : ¬ (r.profiles.lookup spk).all (fun prior => rowGt row prior) = true := hnew
      rw [if_neg hnew']
      simp [applyProfileOnly, applyProfile, hrecord, hnew]

theorem applyProfiles_lookup (r : Registry) (txs : List Tx) :
    (fun k => (applyProfiles env r txs).profiles.lookup k) =
      (registers rowGt).run (fun k => r.profiles.lookup k) (txs.filterMap (recordWrite env)) := by
  induction txs generalizing r with
  | nil => rfl
  | cons tx txs ih =>
    have hcons : applyProfiles env r (tx :: txs) = applyProfiles env (applyProfileOnly env r tx).1 txs :=
      rfl
    have hwrites : (tx :: txs).filterMap (recordWrite env) =
        (recordWrite env tx).toList ++ txs.filterMap (recordWrite env) := by
      cases h : recordWrite env tx <;> simp [h]
    rw [hcons, ih, applyProfileOnly_lookup, hwrites, Machine.run_append]

theorem mem_writes {txs : List Tx} {w : ProfileWrite} :
    w ∈ txs.filterMap (recordWrite env) ↔
      ∃ tx ∈ txs, tx.acceptingBlock = w.tag ∧ profileRecord env tx = some (w.key, w.value) := by
  simp only [List.mem_filterMap, recordWrite, Option.map_eq_some_iff]
  refine exists_congr fun tx => and_congr_right fun _ => ?_
  constructor
  · rintro ⟨⟨k, v⟩, hrecord, rfl⟩
    exact ⟨rfl, hrecord⟩
  · rintro ⟨htag, hrecord⟩
    exact ⟨(w.key, w.value), hrecord, by rw [htag]⟩

theorem rowGt_irrefl (row : ProfileRow) : rowGt row row = false := orderGt_irrefl _

theorem rowGt_trans {a b c : ProfileRow} (h : rowGt a b = true) (h' : rowGt b c = true) :
    rowGt a c = true := orderGt_trans h h'

/-- The order of two records is strict unless they are of the same accepting score and id. -/
theorem orderGt_total {a b : UInt64 × Bytes32} (h : orderGt a b = false) (h' : orderGt b a = false) :
    a = b := by
  simp only [orderGt, Bool.or_eq_false_iff, decide_eq_false_iff_not, Bool.and_eq_false_iff,
    beq_eq_false_iff_ne, UInt64.not_lt] at h h'
  have hdaa : a.1 = b.1 := UInt64.le_antisymm h.1 h'.1
  have hid := h.2.resolve_left (not_not.mpr hdaa)
  have hid' := h'.2.resolve_left (not_not.mpr hdaa.symm)
  exact Prod.ext hdaa (le_antisymm (not_lt.mp hid) (not_lt.mp hid'))

/-- Each script ends with the greatest of its records and what was stored. -/
theorem profiles_greatest (r : Registry) (txs : List Tx) (spk : Bytes) :
    Greatest env (r.profiles.lookup spk) txs spk ((applyProfiles env r txs).profiles.lookup spk) := by
  have hlookup : (applyProfiles env r txs).profiles.lookup spk = _ :=
    congrFun (applyProfiles_lookup r txs) spk
  have hwrite {tx : Tx} (htx : tx ∈ txs) {row : ProfileRow}
      (hrecord : profileRecord env tx = some (spk, row)) :
      (⟨tx.acceptingBlock, spk, row⟩ : ProfileWrite) ∈ txs.filterMap (recordWrite env) :=
    mem_writes.mpr ⟨tx, htx, rfl, hrecord⟩
  rw [hlookup]
  rcases run_settles rowGt_irrefl rowGt_trans (fun k => r.profiles.lookup k)
    (txs.filterMap (recordWrite env)) spk with ⟨hrun, hnone⟩ | ⟨w, hw, rfl, hnewer, hrun, hmax⟩
  · rw [hrun]
    cases hstored : r.profiles.lookup spk with
    | none =>
      refine ⟨rfl, fun tx htx row hrecord => ?_⟩
      have hnew := hnone _ (hwrite htx hrecord) rfl
      simp [newer, hstored] at hnew
    | some row =>
      refine ⟨.inl rfl, fun old hold => ?_, fun tx htx row' hrecord => ?_⟩
      · rw [Option.some.inj hold]
        exact orderGt_irrefl _
      · have hnew := hnone _ (hwrite htx hrecord) rfl
        simpa [newer, hstored, rowGt] using hnew
  · obtain ⟨tx, htx, -, hrecord⟩ := mem_writes.mp hw
    rw [hrun]
    refine ⟨.inr ⟨tx, htx, hrecord⟩, fun old hold => ?_,
      fun tx' htx' row' hrecord' => hmax _ (hwrite htx' hrecord') rfl⟩
    unfold newer at hnewer
    dsimp only at hnewer
    rw [Option.mem_def.mp hold, Option.all_some] at hnewer
    by_contra hgt
    have hself := rowGt_trans (eq_true_of_ne_false hgt) hnewer
    exact absurd hself (ne_true_of_eq_false (rowGt_irrefl old))

end

/-- The profiles after the records of some transactions do not depend on the order in which they are
applied: each script has the greatest of its records and what was stored. An id names one payload. -/
theorem profiles_commute (env : Env) (r : Registry) {txs txs' : List Tx}
    (hids : ∀ tx ∈ txs, ∀ tx' ∈ txs, tx.id = tx'.id → tx.payload = tx'.payload)
    (hsame : ∀ tx, tx ∈ txs ↔ tx ∈ txs') :
    (applyProfiles env r txs).profiles = (applyProfiles env r txs').profiles ∧
      (∀ spk, Greatest env (r.profiles.lookup spk) txs spk
        ((applyProfiles env r txs).profiles.lookup spk)) ∧
      ∀ tx, ¬ SelfSend tx → ∀ r, (applyProfileOnly env r tx).1.profiles = r.profiles := by
  refine ⟨Finmap.ext_lookup fun spk => ?_, profiles_greatest r txs,
    fun tx h r => unchanged_of_not_selfSend h r⟩
  have hwrites (w : ProfileWrite) :
      w ∈ txs.filterMap (recordWrite env) ↔ w ∈ txs'.filterMap (recordWrite env) := by
    simp only [mem_writes, hsame]
  have hties : ∀ w ∈ txs.filterMap (recordWrite env), ∀ v ∈ txs.filterMap (recordWrite env),
      rowGt w.value v.value = false → rowGt v.value w.value = false → w.value = v.value := by
    intro w hw v hv hwv hvw
    obtain ⟨tx, htx, -, hrecord⟩ := mem_writes.mp hw
    obtain ⟨tx', htx', -, hrecord'⟩ := mem_writes.mp hv
    have horder := orderGt_total hwv hvw
    have hpayload := hids tx htx tx' htx' (by
      rw [record_order hrecord, record_order hrecord'] at horder
      exact congrArg Prod.snd horder)
    have hjson := (profileRecord_iff.mp hrecord).1.2.1
    rw [hpayload, (profileRecord_iff.mp hrecord').1.2.1] at hjson
    exact Prod.ext (Option.some.inj hjson).symm horder
  have hrun := run_same rowGt_irrefl rowGt_trans (s := fun k => r.profiles.lookup k) hwrites hties
  rw [← applyProfiles_lookup, ← applyProfiles_lookup] at hrun
  exact congrFun hrun spk

/-- Two saves of a profile, told in either order. -/
theorem saved_either_way :
    (applyProfiles sampleEnv Registry.new [saveProfile, saveAgain]).profiles =
      (applyProfiles sampleEnv Registry.new [saveAgain, saveProfile]).profiles := by
  have hids : saveProfile.id ≠ saveAgain.id := by decide
  refine (profiles_commute sampleEnv Registry.new ?_ fun tx => ?_).1
  · intro tx htx tx' htx' heq
    simp only [List.mem_cons, List.not_mem_nil, or_false] at htx htx'
    rcases htx with rfl | rfl <;> rcases htx' with rfl | rfl
    · rfl
    · exact absurd heq hids
    · exact absurd heq.symm hids
    · rfl
  · simp only [List.mem_cons, List.not_mem_nil, or_false]
    exact or_comm

end KaChatIndexer.ProfilesOrder
