import KaChatIndexer.NamesShapes

/-!
# Documented shapes take core steps

First fit places every predicted state of a documented shape, so the code's step on the UTXO map
is a `CoreStep` on the gaps and names, with the event the step reports.
-/
namespace KaChatIndexer.NamesCoreStep
open ByteStrings NamesCodec NamesState NamesEnv NamesTransition NamesTemplates NamesRegistry
open NamesApply NamesPredictions NamesStep NamesReorg NamesShapes FinmapPatch FirstFit

section
variable {env : Env} {t : Templates} {tx : Tx} {utxos : UtxoMap}

/-- The output found for a prediction. -/
def find (env : Env) (t : Templates) (tx : Tx) (p : Prediction) (used : List ℕ) : Option ℕ :=
  findOutput tx (t.trackedSpk env p.state) used p.bind

theorem find_some {p : Prediction} {used : List ℕ} {j : ℕ} (h : find env t tx p used = some j) :
    j ∉ used ∧ Carries env t tx p j := findOutput_some h

theorem find_none {p : Prediction} {used : List ℕ} (h : find env t tx p used = none) (i : ℕ)
    (hi : Carries env t tx p i) : i ∈ used := by
  obtain ⟨o, hget, hspk, hok⟩ := hi
  exact findOutput_none h hget hspk hok

theorem picks_of_present {spends : List Spend} {ps : List Prediction} {used : List ℕ}
    {bind : Option (ℕ × Bytes32)} (hbind : ∀ p ∈ ps, p.bind = bind)
    (hout : AllPresent env t tx spends ps)
    (hused : ∀ j ∈ used, ∃ q ∈ priceSpendPredictions t spends, Carries env t tx q j) :
    ∃ js, Picks (find env t tx) used ps js := by
  obtain ⟨⟨is, hfits, hnodup⟩, hprice⟩ := hout
  refine exists_picks (fun p used j (h : find env t tx p used = some j) => find_some h)
    (fun p used h => find_none h) ?_ hfits hnodup ?_
  · intro p hp q hq i j hpi hqi hpj
    obtain ⟨o, hget, hspk, hok⟩ := hpj
    obtain ⟨oi, hgeti, hspki, -⟩ := hpi
    obtain ⟨oi', hgeti', hspki', -⟩ := hqi
    rw [hgeti] at hgeti'
    cases hgeti'
    exact ⟨o, hget, by rw [hspk, ← hspki, hspki'], by rw [hbind q hq, ← hbind p hp]; exact hok⟩
  · intro i hi hmem
    obtain ⟨q, hq, oq, hgetq, hspkq, -⟩ := hused i hmem
    obtain ⟨p, hp, hpi⟩ : ∃ p ∈ ps, Carries env t tx p i := by
      obtain ⟨k, hk, rfl⟩ := List.getElem_of_mem hi
      have hk' : k < ps.length := hfits.length_eq ▸ hk
      exact ⟨ps[k], List.getElem_mem hk', hfits.get hk' hk⟩
    obtain ⟨o, hget, hspk, -⟩ := hpi
    rw [hgetq] at hget
    cases hget
    exact hprice p hp q hq (hspkq.symm.trans hspk)

/-- The placed states at their outpoints. -/
def placed (tx : Tx) (ps : List Prediction) (js : List ℕ) : List (Outpoint × Tracked) :=
  List.zipWith (fun p j => (tx.outpoint j, p.state)) ps js

theorem place_of_find {p : Prediction} {w : Work} {j : ℕ} (h : find env t tx p w.used = some j) :
    place tx (t.trackedSpk env p.state) p.bind p.state w =
      some ⟨w.utxos.insert (tx.outpoint j) p.state, w.used ++ [j], w.events⟩ := by
  unfold find at h
  simp [place, h]

theorem placed_id {ps : List Prediction} {js : List ℕ} {x : Outpoint × Tracked}
    (h : x ∈ placed tx ps js) : x.1.1 = tx.id := by
  obtain ⟨p, j, rfl⟩ : ∃ p j, x = (tx.outpoint j, (p : Prediction).state) := by
    unfold placed at h
    obtain ⟨k, hk, rfl⟩ := List.getElem_of_mem h
    exact ⟨_, _, List.getElem_zipWith⟩
  rfl

theorem placed_nodup {ps : List Prediction} {js : List ℕ}
    (hfits : List.Forall₂ (Carries env t tx) ps js) (hnodup : js.Nodup) :
    ((placed tx ps js).map Prod.fst).Nodup := by
  have hkeys : (placed tx ps js).map Prod.fst = js.map tx.outpoint := by
    clear hnodup
    induction hfits with
    | nil => rfl
    | cons _ _ ih => simpa [placed] using ih
  have hlt : ∀ j ∈ js, j < tx.outputs.length := by
    intro j hj
    obtain ⟨k, hk, rfl⟩ := List.getElem_of_mem hj
    have hk' : k < ps.length := hfits.length_eq ▸ hk
    exact (hfits.get hk' hk).lt
  rw [hkeys]
  exact hnodup.map_on fun i hi j hj heq => outpoint_injective (hlt i hi) (hlt j hj) heq

/-- Placing core states on top of the branch's start patches the gaps and names. -/
theorem corePatch_of_placed (hfresh : FreshId utxos tx) {ps : List Prediction} {js : List ℕ}
    {c : Claims} (hc : Started env t tx utxos c) (hpicks : Picks (find env t tx) c.2 ps js)
    (hutxos : (applyWork env t tx utxos).utxos = insertAll (placed tx ps js) c.1) :
    CorePatch utxos (applyUtxos env t tx utxos)
      ((coreSpends (spendsOf t tx utxos)).map Spend.outpoint) (placed tx ps js) := by
  obtain ⟨hfits, hnodup, -⟩ := hpicks.sound fun p used j (h : find env t tx p used = some j) => find_some h
  have hkeys := placed_nodup hfits hnodup
  have hnew : ∀ x ∈ placed tx ps js, x.1 ∉ utxos := fun x hx hmem => hfresh _ hmem (placed_id hx)
  refine ⟨fun op s hs => ?_, hkeys, hnew⟩
  rw [applyUtxos_lookup, hutxos]
  have hgone : utxos.lookup op = some s → (op ∈ consumed t tx utxos ↔
      op ∈ (coreSpends (spendsOf t tx utxos)).map Spend.outpoint) := by
    intro hlookup
    constructor
    · intro h
      obtain ⟨s', hs', rfl⟩ := List.mem_map.mp h
      refine List.mem_map.mpr ⟨s', mem_coreSpends.mpr ⟨hs', ?_⟩, rfl⟩
      rw [spend_lookup hs'] at hlookup
      rw [Option.some.inj hlookup, hs]
    · intro h
      obtain ⟨s', hs', rfl⟩ := List.mem_map.mp h
      exact List.mem_map_of_mem (mem_coreSpends.mp hs').1
  split
  · next hcons =>
    refine iff_of_false (by simp) ?_
    rintro (hadded | ⟨hlookup, hnot⟩)
    · exact consumed_ne_id hcons (placed_id hadded)
    · exact hnot ((hgone hlookup).mp hcons)
  · next hcons =>
    rw [lookup_insertAll_iff hkeys, hc.core op s hs]
    refine or_congr_right ⟨fun h => ⟨h.2, fun hmem => hcons ((hgone h.2).mpr hmem)⟩, fun h => ⟨?_, h.1⟩⟩
    intro hmem
    obtain ⟨x, hx, rfl⟩ := List.mem_map.mp hmem
    exact hnew x hx (Finmap.mem_iff.mpr ⟨s, h.1⟩)

theorem placeSplit_of_picks {auth : ℕ} {left right : GapState} {nm : NameState} {e : Event}
    {w : Work} {js : List ℕ}
    (h : Picks (find env t tx) w.used (splitPredictions t auth (left, right, nm)) js) :
    placeSplit env t tx auth left right nm e w =
      ⟨insertAll (placed tx (splitPredictions t auth (left, right, nm)) js) w.utxos, w.used ++ js,
        w.events ++ [e]⟩ := by
  cases h with
  | @cons _ _ i _ _ h1 h =>
  cases h with
  | @cons _ _ j _ _ h2 h =>
  cases h with
  | @cons _ _ k _ _ h3 h =>
  cases h
  let wl : Work := ⟨w.utxos.insert (tx.outpoint i) (.gap left), w.used ++ [i], w.events⟩
  let wr : Work := ⟨wl.utxos.insert (tx.outpoint j) (.gap right), wl.used ++ [j], w.events⟩
  let ws : Work := ⟨wr.utxos.insert (tx.outpoint k) (.name nm), wr.used ++ [k], w.events⟩
  have p1 : place tx (t.gapSpk env left) (regBind t auth) (.gap left) w = some wl := place_of_find h1
  have p2 : place tx (t.gapSpk env right) (regBind t auth) (.gap right) wl = some wr :=
    place_of_find (w := wl) h2
  have p3 : place tx (t.nameSpk env nm) (regBind t auth) (.name nm) wr = some ws :=
    place_of_find (w := wr) h3
  have hgaps : [left, right].foldl (placeGap env t tx (regBind t auth)) w = wr := by
    rw [List.foldl_cons, List.foldl_cons, List.foldl_nil, placeGap, placeGap, p1, Option.getD_some,
      p2, Option.getD_some]
  unfold placeSplit
  dsimp only
  rw [hgaps, p3]
  simp [ws, wr, wl, Work.emit, placed, splitPredictions, insertAll]

/-- A shape's step, from the branch's outcome: what it places and what it reports. -/
theorem step_of_branch (hfresh : FreshId utxos tx) {ps : List Prediction} {js : List ℕ}
    {es : List Event} (hpicks : Picks (find env t tx) (branchStart env t tx utxos).used ps js)
    (hbranch : branch env t tx (spendsOf t tx utxos) (branchStart env t tx utxos) =
      ⟨insertAll (placed tx ps js) (branchStart env t tx utxos).utxos,
        (branchStart env t tx utxos).used ++ js, (branchStart env t tx utxos).events ++ es⟩) :
    nameEvents (applyWork env t tx utxos).events = nameEvents es ∧
      CorePatch utxos (applyUtxos env t tx utxos)
        ((coreSpends (spendsOf t tx utxos)).map Spend.outpoint) (placed tx ps js) := by
  rw [← applyWork_branch] at hbranch
  constructor
  · rw [hbranch, nameEvents_append, branchStart_events, List.nil_append]
  · exact corePatch_of_placed hfresh (started hfresh) hpicks (by rw [hbranch]; rfl)

theorem picks_three {used : List ℕ} {p q r : Prediction} {js : List ℕ}
    (h : Picks (find env t tx) used [p, q, r] js) : ∃ i j k, js = [i, j, k] := by
  cases h with
  | cons _ h =>
  cases h with
  | cons _ h =>
  cases h with
  | cons _ h =>
  cases h
  exact ⟨_, _, _, rfl⟩

theorem picks_one {used : List ℕ} {p : Prediction} {js : List ℕ}
    (h : Picks (find env t tx) used [p] js) : ∃ j, js = [j] ∧ find env t tx p used = some j := by
  cases h with
  | cons hj h =>
  cases h
  exact ⟨_, rfl, hj⟩

/-- What every documented shape does. -/
def Steps (env : Env) (t : Templates) (tx : Tx) (utxos : UtxoMap) : Prop :=
  ∃ removed added, CoreStep utxos removed added (nameEvents (applyWork env t tx utxos).events) ∧
    CorePatch utxos (applyUtxos env t tx utxos) removed added

/-- A register or import, once the branch is known to place the split of `gap` at `key`. -/
theorem steps_of_split (hfresh : FreshId utxos tx) {s : Spend} {gap : GapState} {n : NameState}
    {e : Event} (hcore : coreSpends (spendsOf t tx utxos) = [s]) (hgap : s.tracked = .gap gap)
    (hlo : gap.lo < n.key) (hhi : n.key < gap.hi) (hprice : n.price = 0)
    (hop : e.op = .register ∨ e.op = .import) (hkey : e.key = n.key) (hto : e.toKey = some n.owner)
    (hout : AllPresent env t tx (spendsOf t tx utxos)
      (splitPredictions t s.idx (⟨gap.lo, n.key⟩, ⟨n.key, gap.hi⟩, n)))
    (hbranch : ∀ w, branch env t tx (spendsOf t tx utxos) w =
      placeSplit env t tx s.idx ⟨gap.lo, n.key⟩ ⟨n.key, gap.hi⟩ n e w) :
    Steps env t tx utxos := by
  have hs : s ∈ spendsOf t tx utxos := (mem_coreSpends.mp (by rw [hcore]; simp)).1
  have hlookup := spend_lookup hs
  rw [hgap] at hlookup
  have hbind : ∀ p ∈ splitPredictions t s.idx (⟨gap.lo, n.key⟩, ⟨n.key, gap.hi⟩, n),
      p.bind = regBind t s.idx := by simp [splitPredictions]
  obtain ⟨js, hpicks⟩ := picks_of_present hbind hout (started hfresh).used
  obtain ⟨hevents, hpatch⟩ := step_of_branch hfresh hpicks
    ((hbranch _).trans (placeSplit_of_picks hpicks))
  obtain ⟨i, j, k, rfl⟩ := picks_three hpicks
  have hon : nameEvents [e] = [e] := by
    rcases hop with hop | hop <;> simp [nameEvents, hop, onName]
  refine ⟨_, _, ?_, hpatch⟩
  rw [hevents, hcore, hon]
  exact .split hlookup hlo hhi hprice hop hkey hto

theorem steps_register (hfresh : FreshId utxos tx) {s : Spend} {gap : GapState}
    {args : Bytes × Bytes32 × Int64 × Int64} (hcore : coreSpends (spendsOf t tx utxos) = [s])
    (hentry : s.entry = .gapRegister) (hgap : s.tracked = .gap gap)
    (hargs : registerArgs s.sig = some args) (hlo : gap.lo < nameKey env args.1)
    (hhi : nameKey env args.1 < gap.hi)
    (hout : AllPresent env t tx (spendsOf t tx utxos) (registerPredictions env t s)) :
    Steps env t tx utxos := by
  obtain ⟨name, owner, now, years⟩ := args
  obtain ⟨auth, op, tracked, entry, sig⟩ := s
  cases hgap
  cases hentry
  simp only [registerPredictions, hargs] at hout
  refine steps_of_split hfresh (n := (registerWithPeriod env gap name owner now years t.periodMs).2.2)
    (e := { event .register (nameKey env name) tx with toKey := some owner, years := some years })
    hcore rfl hlo hhi rfl (.inl rfl) rfl rfl hout fun w => ?_
  have hmerge : hasEntry (spendsOf t tx utxos) .gapMerge = false := by
    rw [hasEntry_core (.inl rfl), hcore]; rfl
  have hregister : hasEntry (spendsOf t tx utxos) .gapRegister = true := by
    rw [hasEntry_core (.inl rfl), hcore]; rfl
  have hfind := find_entry hcore rfl (.inl rfl)
  simp only at hargs
  simp only [branch, hmerge, hregister, if_true, Bool.false_eq_true, if_false, applyRegister, hfind, hargs]
  rfl

theorem steps_import (hfresh : FreshId utxos tx) {s : Spend} {gap : GapState}
    {args : Bytes × Bytes32 × Int64 × Int64} (hcore : coreSpends (spendsOf t tx utxos) = [s])
    (hentry : s.entry = .gapImport) (hgap : s.tracked = .gap gap)
    (hargs : importArgs s.sig = some args) (hlo : gap.lo < nameKey env args.1)
    (hhi : nameKey env args.1 < gap.hi)
    (hout : AllPresent env t tx (spendsOf t tx utxos) (importPredictions env t s)) :
    Steps env t tx utxos := by
  obtain ⟨name, owner, periodStart, expiresAt⟩ := args
  obtain ⟨auth, op, tracked, entry, sig⟩ := s
  cases hgap
  cases hentry
  simp only [importPredictions, hargs] at hout
  refine steps_of_split hfresh (n := (importName env gap name owner periodStart expiresAt).2.2)
    (e := { event .import (nameKey env name) tx with toKey := some owner })
    hcore rfl hlo hhi rfl (.inr rfl) rfl rfl hout fun w => ?_
  have hmerge : hasEntry (spendsOf t tx utxos) .gapMerge = false := by
    rw [hasEntry_core (.inl rfl), hcore]; rfl
  have hregister : hasEntry (spendsOf t tx utxos) .gapRegister = false := by
    rw [hasEntry_core (.inl rfl), hcore]; rfl
  have himport : hasEntry (spendsOf t tx utxos) .gapImport = true := by
    rw [hasEntry_core (.inl rfl), hcore]; rfl
  have hfind := find_entry hcore rfl (.inl rfl)
  simp only at hargs
  simp only [branch, hmerge, hregister, himport, if_true, Bool.false_eq_true, if_false, applyImport,
    hfind, hargs]
  rfl

theorem corePatch_congr {m m' : UtxoMap} {removed removed' : List Outpoint}
    {added : List (Outpoint × Tracked)} (h : CorePatch m m' removed added)
    (hsame : ∀ op, op ∈ removed ↔ op ∈ removed') : CorePatch m m' removed' added :=
  ⟨fun op s hs => by rw [h.lookup op s hs, hsame], h.nodup, h.fresh⟩

theorem exitEvents_core (spends : List Spend) :
    spends.filterMap (exitEvent tx) = (coreSpends spends).filterMap (exitEvent tx) := by
  rw [coreSpends, List.filterMap_filter]
  refine List.filterMap_congr fun s _ => ?_
  cases h : s.tracked <;> simp [exitEvent, h, isCore]

theorem steps_exit (hfresh : FreshId utxos tx) {sm sn sa : Spend} {loGap hiGap : GapState}
    {n : NameState} (hcore : (coreSpends (spendsOf t tx utxos)).Perm [sm, sn, sa])
    (hmerge : sm.tracked = .gap loGap ∧ sm.entry = .gapMerge)
    (hname : sn.tracked = .name n ∧ (sn.entry = .nameRelease ∨ sn.entry = .nameReclaim))
    (habsorbed : sa.tracked = .gap hiGap ∧ sa.entry = .gapAbsorbed) (hlo : loGap.hi = n.key)
    (hhi : n.key = hiGap.lo)
    (hout : AllPresent env t tx (spendsOf t tx utxos)
      [⟨regBind t sm.idx, .gap (mergeGaps loGap hiGap)⟩]) : Steps env t tx utxos := by
  have hmem (s : Spend) (h : s ∈ [sm, sn, sa]) : s ∈ spendsOf t tx utxos :=
    (mem_coreSpends.mp (hcore.mem_iff.mpr h)).1
  have hcases (s : Spend) (hs : s ∈ spendsOf t tx utxos) (h : isCore s.tracked = true) :
      s = sm ∨ s = sn ∨ s = sa := by
    simpa using hcore.mem_iff.mp (mem_coreSpends.mpr ⟨hs, h⟩)
  have hmerges : (spendsOf t tx utxos).findSome? mergeGap = some (sm.idx, loGap) := by
    refine findSome?_unique (hmem sm (by simp)) (by simp [mergeGap, hmerge]) fun s hs y hy => ?_
    unfold mergeGap at hy
    split at hy
    · next g hg he =>
      rcases hcases s hs (by rw [hg]; rfl) with rfl | rfl | rfl
      · rw [hmerge.1] at hg
        cases hg
        exact (Option.some.inj hy).symm
      · rw [hname.1] at hg; cases hg
      · rw [habsorbed.2] at he; cases he
    · cases hy
  have habsorbs : (spendsOf t tx utxos).findSome? absorbedGap = some hiGap := by
    refine findSome?_unique (hmem sa (by simp)) (by simp [absorbedGap, habsorbed]) fun s hs y hy => ?_
    unfold absorbedGap at hy
    split at hy
    · next g hg he =>
      rcases hcases s hs (by rw [hg]; rfl) with rfl | rfl | rfl
      · rw [hmerge.2] at he; cases he
      · rw [hname.1] at hg; cases hg
      · rw [habsorbed.1] at hg
        cases hg
        exact (Option.some.inj hy).symm
    · cases hy
  have hhas : hasEntry (spendsOf t tx utxos) .gapMerge = true :=
    hasEntry_iff.mpr ⟨sm, hmem sm (by simp), hmerge.2⟩
  obtain ⟨js, hpicks⟩ := picks_of_present
    (fun p hp => congrArg Prediction.bind (List.mem_singleton.mp hp)) hout (started hfresh).used
  obtain ⟨j, rfl, hj⟩ := picks_one hpicks
  have hplace := place_of_find (w := branchStart env t tx utxos) hj
  have hbranch : branch env t tx (spendsOf t tx utxos) (branchStart env t tx utxos) =
      ⟨insertAll (placed tx [⟨regBind t sm.idx, .gap (mergeGaps loGap hiGap)⟩] [j])
          (branchStart env t tx utxos).utxos,
        (branchStart env t tx utxos).used ++ [j],
        (branchStart env t tx utxos).events ++ (spendsOf t tx utxos).filterMap (exitEvent tx)⟩ := by
    simp only [Templates.trackedSpk] at hplace
    simp only [branch, hhas, if_true, applyExit, hmerges, habsorbs, hplace, Option.getD_some]
    rfl
  obtain ⟨hevents, hpatch⟩ := step_of_branch hfresh hpicks hbranch
  set e : Event := { event (if sn.entry = .nameReclaim then .reclaim else .release) n.key tx with
    fromKey := some n.owner } with he
  have hexit : (spendsOf t tx utxos).filterMap (exitEvent tx) = [e] := by
    have hperm := hcore.filterMap (exitEvent tx)
    rw [← exitEvents_core] at hperm
    simp only [List.filterMap_cons, List.filterMap_nil, exitEvent, hmerge.1, hname.1,
      habsorbed.1] at hperm
    exact List.perm_singleton.mp hperm
  have hop : e.op = .release ∨ e.op = .reclaim := by
    simp only [he]
    split
    · exact .inr rfl
    · exact .inl rfl
  have hon : nameEvents [e] = [e] := by
    rcases hop with hop | hop <;> simp [nameEvents, hop, onName]
  have hlookup (s : Spend) (h : s ∈ [sm, sn, sa]) := spend_lookup (hmem s h)
  refine ⟨[sm.outpoint, sn.outpoint, sa.outpoint], _, ?_, corePatch_congr hpatch fun op => ?_⟩
  · rw [hevents, hexit, hon]
    exact .exit (hmerge.1 ▸ hlookup sm (by simp)) (hname.1 ▸ hlookup sn (by simp))
      (habsorbed.1 ▸ hlookup sa (by simp)) hlo hhi hop rfl
  · exact (hcore.map Spend.outpoint).mem_iff

/-- No two tracked names have one key. -/
def UniqueKeys (m : UtxoMap) : Prop :=
  ∀ op op' n n', m.lookup op = some (.name n) → m.lookup op' = some (.name n') → n.key = n'.key →
    op = op'

theorem continueName_continues {periodMs : Int64} {accepted : Bool} {old ns : NameState}
    {entry : Entry} {sig : SigScript} {op : Op} {price years : Option Int64}
    (h : continueName periodMs accepted old entry sig = some (ns, op, price, years)) :
    Continues old ns (nameEvent tx op old ns price years) := by
  have howner : ∀ op' : Op, (op' = .transfer ∨ op' = .sale ∨ op' = .offerAccepted) →
      ∀ owner price, Continues old (nameTransfer old owner)
        (nameEvent tx op' old (nameTransfer old owner) price none) := by
    rintro op' hop owner price
    rcases eq_or_ne old.owner owner with rfl | hne
    · rcases hop with rfl | rfl | rfl <;> simp [Continues, nameEvent, nameTransfer, event]
    · rcases hop with rfl | rfl | rfl <;>
        simp [Continues, nameEvent, nameTransfer, event, hne, hne.symm]
  cases entry <;> simp only [continueName, Option.map_eq_some_iff, reduceCtorEq] at h
  case nameTransfer =>
    obtain ⟨owner, -, heq⟩ := h
    cases heq
    exact howner _ (by split <;> simp) owner none
  case nameBuy =>
    obtain ⟨owner, -, heq⟩ := h
    cases heq
    exact howner _ (by simp) owner _
  case nameList =>
    obtain ⟨p, -, heq⟩ := h
    cases heq
    split <;> simp [Continues, nameEvent, nameList, event]
  case nameRenew =>
    obtain ⟨y, -, heq⟩ := h
    cases heq
    simp [Continues, nameEvent, nameRenewWithPeriod, event]
  case nameExtend =>
    obtain ⟨y, -, heq⟩ := h
    cases heq
    simp [Continues, nameEvent, nameExtendWithPeriod, event]

theorem continues_on {old ns : NameState} {e : Event} (h : Continues old ns e) :
    nameEvents [e] = [e] := by
  have hon : onName e.op = true := by
    obtain ⟨-, -, h⟩ := h
    cases hop : e.op <;> simp [hop] at h <;> rfl
  simp [nameEvents, hon]

theorem recordName_eq (auth : ℕ) (ns old : NameState) (op : Op) (price years : Option Int64)
    (w : Work) : recordName env t tx auth ns op old price years w =
      match find env t tx ⟨regBind t auth, .name ns⟩ w.used with
      | some i => ⟨w.utxos.insert (tx.outpoint i) (.name ns), w.used ++ [i],
          w.events ++ [nameEvent tx op old ns price years]⟩
      | none => w := by
  unfold recordName
  cases h : find env t tx ⟨regBind t auth, .name ns⟩ w.used with
  | some i =>
    have hplace := place_of_find (w := w) h
    simp only [Templates.trackedSpk] at hplace
    rw [hplace]
    rfl
  | none =>
    have hplace : place tx (t.nameSpk env ns) (regBind t auth) (.name ns) w = none := by
      unfold find at h
      simpa [place, Templates.trackedSpk] using h
    rw [hplace]

/-- The continuation of `old` by `ns` was placed on top of `w`, and reported. -/
def Placed (env : Env) (t : Templates) (tx : Tx) (old ns : NameState) (w w' : Work) : Prop :=
  ∃ bind i e, find env t tx ⟨bind, .name ns⟩ w.used = some i ∧ Continues old ns e ∧
    w' = ⟨w.utxos.insert (tx.outpoint i) (.name ns), w.used ++ [i], w.events ++ [e]⟩

theorem placed_of_record {auth : ℕ} {ns old : NameState} {op : Op} {price years : Option Int64}
    {w : Work} {i : ℕ} (hfind : find env t tx ⟨regBind t auth, .name ns⟩ w.used = some i)
    (hevent : Continues old ns (nameEvent tx op old ns price years)) :
    Placed env t tx old ns w (recordName env t tx auth ns op old price years w) :=
  ⟨_, i, _, hfind, hevent, by rw [recordName_eq, hfind]⟩

/-- Where one output only has the script, a placed continuation is not placed again. -/
theorem recordName_placed {auth : ℕ} {ns old old' : NameState} {op : Op}
    {price years : Option Int64} {w w' : Work} (hplaced : Placed env t tx old ns w w')
    (honly : ∀ (i j : ℕ) (o o' : TxOutput), tx.outputs[i]? = some o → tx.outputs[j]? = some o' →
      o.scriptPublicKey = t.nameSpk env ns → o'.scriptPublicKey = t.nameSpk env ns → i = j) :
    recordName env t tx auth ns op old' price years w' = w' := by
  obtain ⟨bind, i, e, hfind, -, rfl⟩ := hplaced
  rw [recordName_eq]
  split
  · next j hj =>
    obtain ⟨hfree, o, hget, hspk, -⟩ := find_some hj
    obtain ⟨-, o', hget', hspk', -⟩ := find_some hfind
    exact absurd (honly i j o' o hget' hget hspk' hspk ▸ List.mem_append_right _ (by simp)) hfree
  · rfl

theorem applyNameSpend_inert {spends : List Spend} {s : Spend} (hs : isCore s.tracked = false)
    (haccept : s.entry ≠ .offerAccept ∨ hasEntry spends .nameTransfer = true) (w : Work) :
    applyNameSpend env t tx spends w s = w := by
  unfold applyNameSpend
  cases htracked : s.tracked with
  | gap | name => simp [htracked, isCore] at hs
  | shard => rfl
  | offer offer =>
    dsimp only
    rw [if_neg]
    rintro ⟨h1, h2⟩
    exact haccept.elim (fun h => h h1) h2

theorem foldl_inert {spends l : List Spend}
    (h : ∀ s ∈ l, ∀ w, applyNameSpend env t tx spends w s = w) (w : Work) :
    l.foldl (applyNameSpend env t tx spends) w = w :=
  List.foldlRecOn (motive := fun w' : Work => w' = w) l _ rfl fun w' hw' s hs =>
    (h s hs w').trans hw'

theorem offerAccept_eq {old ns : NameState} {offer : OfferState} {owner : Bytes32}
    (hns : ns = nameTransfer old owner) (hbuyer : offer.buyer = ns.owner) {n : NameState}
    (hn : n = old ∨ n = ns) : offerAccept n offer = ns := by
  subst hns
  rcases hn with rfl | rfl <;> simp [offerAccept, nameTransfer, hbuyer]

theorem nameSpend_branch {s : Spend} {old : NameState}
    (hcore : coreSpends (spendsOf t tx utxos) = [s]) (hname : s.tracked = .name old) (w : Work) :
    branch env t tx (spendsOf t tx utxos) w =
      (spendsOf t tx utxos).foldl (applyNameSpend env t tx (spendsOf t tx utxos)) w := by
  have hs : s ∈ spendsOf t tx utxos := (mem_coreSpends.mp (by rw [hcore]; simp)).1
  have hcontract := spend_contract hs
  rw [hname] at hcontract
  have hno (e : Entry) (h : e.contract = .gap) : hasEntry (spendsOf t tx utxos) e = false := by
    rw [hasEntry_core (.inl h), hcore]
    simp only [hasEntry, List.any_cons, List.any_nil, Bool.or_false, decide_eq_false_iff_not]
    rintro rfl
    rw [hcontract] at h
    cases h
  simp only [branch, hno .gapMerge rfl, hno .gapRegister rfl, hno .gapImport rfl, Bool.false_eq_true,
    if_false]

/-- A buy taken for an offer: whichever of the two spends comes first places the continuation. -/
theorem acceptSpend_step {s s' : Spend} {old ns : NameState} {offer : OfferState} {w : Work}
    (hlookup : utxos.lookup s.outpoint = some (.name old)) (hkeys : UniqueKeys utxos)
    (hstart : Started env t tx utxos (Work.claims w)) {spends : List Spend} {owner : Bytes32}
    (hns : ns = nameTransfer old owner) (htracked : s'.tracked = .offer offer)
    (hkey : offer.key = old.key) (hbuyer : offer.buyer = ns.owner)
    (honly : ∀ (i j : ℕ) (o o' : TxOutput), tx.outputs[i]? = some o → tx.outputs[j]? = some o' →
      o.scriptPublicKey = t.nameSpk env ns → o'.scriptPublicKey = t.nameSpk env ns → i = j) :
    (applyNameSpend env t tx spends w s' = w ∨
        Placed env t tx old ns w (applyNameSpend env t tx spends w s')) ∧
      ∀ w', Placed env t tx old ns w w' → applyNameSpend env t tx spends w' s' = w' := by
  have hw : w.utxos.lookup s.outpoint = some (.name old) :=
    (hstart.core s.outpoint (.name old) rfl).mpr hlookup
  have hold (op : Outpoint) (n : NameState) (h : w.utxos.lookup op = some (.name n))
      (hn : n.key = old.key) : op = s.outpoint :=
    hkeys op s.outpoint n old ((hstart.core op (.name n) rfl).mp h) hlookup hn
  constructor
  · unfold applyNameSpend
    rw [htracked]
    dsimp only
    split
    · have hname : nameByKey env w.utxos offer.key = some (s.outpoint, old) := by
        rw [hkey]
        exact nameByKey_eq hw hold
      rw [hname]
      dsimp only
      rw [offerAccept_eq hns hbuyer (.inl rfl)]
      cases hfind : find env t tx ⟨regBind t s'.idx, .name ns⟩ w.used with
      | none => exact .inl (by rw [recordName_eq, hfind])
      | some i =>
        refine .inr (placed_of_record hfind ?_)
        rcases eq_or_ne old.owner owner with rfl | hne
        · simp [Continues, nameEvent, event, hns, nameTransfer]
        · simp [Continues, nameEvent, event, hns, nameTransfer, hne, hne.symm]
    · exact .inl rfl
  · intro w' hplaced
    have hplaced' := hplaced
    obtain ⟨bind, i, e, -, -, rfl⟩ := hplaced'
    unfold applyNameSpend
    rw [htracked]
    dsimp only
    split
    · split
      · next op n hname =>
        obtain ⟨hop, hn⟩ := nameByKey_some hname
        have hstate : n = old ∨ n = ns := by
          rw [lookup_insert_of] at hop
          split at hop
          · exact .inr (by cases hop; rfl)
          · have hsame := hold op n hop (hn.trans hkey)
            rw [hsame, hw] at hop
            cases hop
            exact .inl rfl
        rw [offerAccept_eq hns hbuyer hstate]
        exact recordName_placed hplaced honly
      · rfl
    · rfl

theorem filter_singleton {α : Type} {f : α → Bool} {l : List α} {a : α} (h : l.filter f = [a]) :
    ∃ front back, l = front ++ a :: back ∧ (∀ x ∈ front, f x = false) ∧ ∀ x ∈ back, f x = false := by
  obtain ⟨front, back, rfl, hfront, -, hback⟩ := List.filter_eq_cons_iff.mp h
  exact ⟨front, back, rfl, by simpa using hfront, by simpa using hback⟩

theorem steps_continuation (hfresh : FreshId utxos tx) (hkeys : UniqueKeys utxos) {s : Spend}
    {old ns : NameState} {op : Op} {price years : Option Int64}
    (hcore : coreSpends (spendsOf t tx utxos) = [s]) (hname : s.tracked = .name old)
    (hnext : continueName t.periodMs (hasEntry (spendsOf t tx utxos) .offerAccept) old s.entry s.sig =
      some (ns, op, price, years))
    (hout : AllPresent env t tx (spendsOf t tx utxos) [⟨regBind t s.idx, .name ns⟩])
    (haccept : AcceptsBeside env t tx (spendsOf t tx utxos) s old ns) : Steps env t tx utxos := by
  have hs : s ∈ spendsOf t tx utxos := (mem_coreSpends.mp (by rw [hcore]; simp)).1
  have hlookup := spend_lookup hs
  rw [hname] at hlookup
  have hstart := @started env t tx utxos hfresh
  set w := branchStart env t tx utxos with hw
  obtain ⟨js, hpicks⟩ := picks_of_present
    (fun p hp => congrArg Prediction.bind (List.mem_singleton.mp hp)) hout hstart.used
  obtain ⟨i, rfl, hfind⟩ := picks_one hpicks
  have hspend (w' : Work) : applyNameSpend env t tx (spendsOf t tx utxos) w' s =
      recordName env t tx s.idx ns op old price years w' := by
    simp only [applyNameSpend, hname, hnext]
  have hplace : Placed env t tx old ns w (applyNameSpend env t tx (spendsOf t tx utxos) w s) := by
    rw [hspend]
    exact placed_of_record hfind (continueName_continues hnext)
  obtain ⟨front, back, hsplit, hfront, hback⟩ := filter_singleton hcore
  have hother (x : Spend) (hx : x ∈ front ∨ x ∈ back) :
      x ∈ spendsOf t tx utxos ∧ isCore x.tracked = false := by
    rw [hsplit]
    exact ⟨by rcases hx with hx | hx <;> simp [hx], hx.elim (hfront x) (hback x)⟩
  have hfold : branch env t tx (spendsOf t tx utxos) w =
      back.foldl (applyNameSpend env t tx (spendsOf t tx utxos))
        (applyNameSpend env t tx (spendsOf t tx utxos)
          (front.foldl (applyNameSpend env t tx (spendsOf t tx utxos)) w) s) := by
    rw [nameSpend_branch hcore hname]
    generalize applyNameSpend env t tx (spendsOf t tx utxos) = step
    rw [hsplit, List.foldl_append, List.foldl_cons]
  have hdone : Placed env t tx old ns w (branch env t tx (spendsOf t tx utxos) w) := by
    rw [hfold]
    by_cases hquiet : hasEntry (spendsOf t tx utxos) .nameTransfer = true ∨
        hasEntry (spendsOf t tx utxos) .offerAccept = false
    · -- No accept acts, so only the name spend changes anything.
      have hinert (x : Spend) (hx : x ∈ front ∨ x ∈ back) (w' : Work) :
          applyNameSpend env t tx (spendsOf t tx utxos) w' x = w' := by
        obtain ⟨hmem, hx⟩ := hother x hx
        refine applyNameSpend_inert hx (hquiet.symm.imp_left fun h hentry => ?_) w'
        rw [hasEntry_iff.mpr ⟨x, hmem, hentry⟩] at h
        cases h
      rw [foldl_inert fun x hx => hinert x (.inl hx), foldl_inert fun x hx => hinert x (.inr hx)]
      exact hplace
    · -- A buy: any accept beside it asks for the same continuation, which has one output.
      rw [not_or, Bool.not_eq_true, Bool.not_eq_false] at hquiet
      obtain ⟨y, hy, hyentry⟩ := hasEntry_iff.mp hquiet.2
      have htransfer : s.entry ≠ .nameTransfer := fun h => by
        rw [hasEntry_iff.mpr ⟨s, hs, h⟩] at hquiet
        cases hquiet.1
      obtain ⟨hbuy, -, honly⟩ := (haccept y hy hyentry).resolve_left htransfer
      rw [hbuy] at hnext
      obtain ⟨owner, -, heq⟩ := Option.map_eq_some_iff.mp hnext
      have hns : ns = nameTransfer old owner := by cases heq; rfl
      have hstep (x : Spend) (hx : x ∈ front ∨ x ∈ back) :
          (applyNameSpend env t tx (spendsOf t tx utxos) w x = w ∨
            Placed env t tx old ns w (applyNameSpend env t tx (spendsOf t tx utxos) w x)) ∧
          ∀ w', Placed env t tx old ns w w' →
            applyNameSpend env t tx (spendsOf t tx utxos) w' x = w' := by
        obtain ⟨hmem, hcorex⟩ := hother x hx
        by_cases hentry : x.entry = .offerAccept
        · obtain ⟨-, ⟨offer, htracked, hkey, hbuyer⟩, -⟩ :=
            (haccept x hmem hentry).resolve_left htransfer
          exact acceptSpend_step hlookup hkeys hstart hns htracked hkey hbuyer honly
        · have hinert := @applyNameSpend_inert env t tx (spendsOf t tx utxos) x hcorex
            (.inl hentry)
          exact ⟨.inl (hinert w), fun w' _ => hinert w'⟩
      have hkeep {l : List Spend} (hl : ∀ x ∈ l, x ∈ front ∨ x ∈ back) {w' : Work}
          (hw' : Placed env t tx old ns w w') :
          Placed env t tx old ns w (l.foldl (applyNameSpend env t tx (spendsOf t tx utxos)) w') :=
        List.foldlRecOn l _ hw' fun w'' hw'' x hx => by rwa [(hstep x (hl x hx)).2 w'' hw'']
      have hstart' : front.foldl (applyNameSpend env t tx (spendsOf t tx utxos)) w = w ∨
          Placed env t tx old ns w (front.foldl (applyNameSpend env t tx (spendsOf t tx utxos)) w) := by
        refine List.foldlRecOn (motive := fun w' : Work => w' = w ∨ Placed env t tx old ns w w')
          front _ (.inl rfl) fun w' hw' x hx => ?_
        rcases hw' with rfl | hw'
        · exact (hstep x (.inl hx)).1
        · exact .inr (by rwa [(hstep x (.inl hx)).2 w' hw'])
      refine hkeep (fun x hx => .inr hx) ?_
      rcases hstart' with heq | hfirst
      · rw [heq]
        exact hplace
      · rwa [hspend, recordName_placed hfirst honly]
  obtain ⟨bind, j, e, hj, hevent, hbranch⟩ := hdone
  have hpicks' : Picks (find env t tx) w.used [⟨bind, .name ns⟩] [j] := .cons hj (.nil _)
  obtain ⟨hevents, hpatch⟩ := step_of_branch hfresh hpicks' hbranch
  refine ⟨_, _, ?_, hpatch⟩
  rw [hevents, hcore, continues_on hevent]
  exact .continued hlookup hevent

theorem steps_aside (hfresh : FreshId utxos tx) (hcore : coreSpends (spendsOf t tx utxos) = [])
    (haccept : hasEntry (spendsOf t tx utxos) .offerAccept = false) : Steps env t tx utxos := by
  have hno (e : Entry) (h : e.contract = .gap) : hasEntry (spendsOf t tx utxos) e = false := by
    rw [hasEntry_core (.inl h), hcore]; rfl
  have hbranch : branch env t tx (spendsOf t tx utxos) (branchStart env t tx utxos) =
      branchStart env t tx utxos := by
    simp only [branch, hno .gapMerge rfl, hno .gapRegister rfl, hno .gapImport rfl,
      Bool.false_eq_true, if_false]
    refine foldl_inert (fun s hs w => applyNameSpend_inert ?_ (.inl fun h => ?_) w) _
    · by_contra hc
      rw [Bool.not_eq_false] at hc
      have := mem_coreSpends.mpr ⟨hs, hc⟩
      simp [hcore] at this
    · rw [hasEntry_iff.mpr ⟨s, hs, h⟩] at haccept
      cases haccept
  have hpicks : Picks (find env t tx) (branchStart env t tx utxos).used [] [] := .nil _
  obtain ⟨hevents, hpatch⟩ := @step_of_branch env t tx utxos hfresh [] [] [] hpicks
    (hbranch.trans (by simp [placed, insertAll]))
  refine ⟨_, _, ?_, hpatch⟩
  rw [hevents, hcore]
  exact .aside

/-- A transaction of a documented shape, with a fresh id, takes a core step. -/
theorem steps_of_shape (hfresh : FreshId utxos tx) (hkeys : UniqueKeys utxos)
    (hshape : Shape env t tx (spendsOf t tx utxos)) : Steps env t tx utxos := by
  cases hshape with
  | register hcore hentry hgap hargs hlo hhi hout =>
    exact steps_register hfresh hcore hentry hgap hargs hlo hhi hout
  | imported hcore hentry hgap hargs hlo hhi hout =>
    exact steps_import hfresh hcore hentry hgap hargs hlo hhi hout
  | exit hcore hmerge hname habsorbed hlo hhi hout =>
    exact steps_exit hfresh hcore hmerge hname habsorbed hlo hhi hout
  | continuation hcore hname hnext hout haccept =>
    exact steps_continuation hfresh hkeys hcore hname hnext hout haccept
  | aside hcore haccept => exact steps_aside hfresh hcore haccept

end

end KaChatIndexer.NamesCoreStep
