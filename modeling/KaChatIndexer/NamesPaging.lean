import KaChatIndexer.NamesPages

/-!
# What a client of the names API reads

Every list is read once and to its end, up to where offset pages may cut between rows that the order
does not tell apart, a sum overflows its column, or an event has the last id there is.
-/
namespace KaChatIndexer.NamesPaging
open ByteStrings KaText NamesState NamesStore PagedReads CursorTexts NamesPages
open ScheduledPosts (hexEncode)

/-! ## Offset pages -/

theorem cursor_decimalText {off : ℕ} (h : off < 2 ^ 63) : cursor (some (decimalText off)) = off := by
  have hvalue : (Int64.ofInt off).toInt = off := Int64.toInt_ofInt_of_le (by omega) (by omega)
  have hparse := parseI64_decimalText (Int64.ofInt off)
  rw [hvalue] at hparse
  rw [cursor, Option.bind_some, hparse]
  simp [hvalue]

theorem pageLen_bounds (q : PageQuery) : 0 < pageLen q ∧ pageLen q ≤ 200 := by
  unfold pageLen
  omega

/-- The cursor text of a number of rows that a page may start behind. -/
def OffsetText (off : ℕ) (t : Option Text) : Prop :=
  off ≤ maxOffset + 200 ∧ cursor t = off

section
variable {order : ℕ → List StoredUtxo → List StoredUtxo} {db : NamesDb} {c : Ctx}
variable {fault : ℕ → Bool} {selected : StoredUtxo → Bool} {q : PageQuery}

theorem offsetPage_alike (hfault : ∀ n, fault n = false) (n off : ℕ) (t : Option Text)
    (h : OffsetText off t) :
    Alike OffsetText (offsetAsk cursorTooFar (pageLen q) maxOffset order (db.utxos.filter selected) n off)
      (follow (offsetPage order db fault selected) q n t) := by
  obtain ⟨hoff, rfl⟩ := h
  have hlen := pageLen_bounds q
  have hpage : pageLen ⟨t, q.length, q.sort⟩ = pageLen q := rfl
  by_cases hdeep : maxOffset < cursor t
  · have hrefused : follow (offsetPage order db fault selected) q n t = .error cursorTooFar := by
      simp [follow, offsetPage, offsetCursor, hdeep, bind, Except.bind, Except.map]
    rw [hrefused, offsetAsk_deep _ hdeep]
    rfl
  · have hserved : follow (offsetPage order db fault selected) q n t =
        .ok (cut (pageLen q) (fun _ => some (some (decimalText (cursor t + pageLen q))))
          ((order n (db.utxos.filter selected)).drop (cursor t))) := by
      simp [follow, offsetPage, offsetCursor, hdeep, bind, Except.bind, Except.map, hfault, hpage, cut_map]
    rw [hserved, offsetAsk, if_neg hdeep]
    refine alike_cut fun _ => ⟨_, _, rfl, rfl, by omega, ?_⟩
    have hnext := @cursor_decimalText (cursor t + pageLen q) (by unfold maxOffset at hdeep; omega)
    exact_mod_cast hnext

/-- An offset list is exact: whatever the database answers, the client gets the first rows in order,
each once, as deep as pages go. -/
def OffsetExact {κ : Type} [LinearOrder κ] (key : StoredUtxo → κ) (rows : List StoredUtxo)
    (faults : (ℕ → Bool) → Prop)
    (handler : (ℕ → List StoredUtxo → List StoredUtxo) → (ℕ → Bool) → ℕ → PageQuery →
      Except ApiError (Page Text StoredUtxo)) (q : PageQuery) : Prop :=
  ∀ order fault, Answers key order → faults fault → ∃ pages e,
    Reads (follow (handler order fault) q) none pages e ∧
      Deep key (pageLen q) (depth (pageLen q) maxOffset) rows pages e

theorem utxos_nodup (db : NamesDb) (selected : StoredUtxo → Bool) :
    (db.utxos.filter selected).Nodup := (List.Nodup.of_map _ db.outpoints).filter _

theorem offsetPage_exact {κ : Type} [LinearOrder κ] {key : StoredUtxo → κ}
    {faults : (ℕ → Bool) → Prop} (hsome : ∃ fault, faults fault)
    (hfaults : ∀ fault, faults fault → ∀ n, fault n = false) :
    OffsetExact key (db.utxos.filter selected) faults
        (fun order fault => offsetPage order db fault selected) q ↔
      Uncut (pageLen q) ((sortedKeys key (db.utxos.filter selected)).take (maxOffset + 1)) := by
  have hstart : OffsetText 0 none := ⟨Nat.zero_le _, rfl⟩
  rw [← offset_iff cursorTooFar (pageLen_bounds q).1 (utxos_nodup db selected)]
  constructor
  · intro h order horder
    obtain ⟨fault, hfault⟩ := hsome
    obtain ⟨pages, e, hreads, hdeep⟩ := h order fault horder hfault
    exact ⟨pages, e, (reads_alike (offsetPage_alike (hfaults fault hfault)) hstart).mp hreads, hdeep⟩
  · intro h order fault horder hfault
    obtain ⟨pages, e, hreads, hdeep⟩ := h order horder
    exact ⟨pages, e, (reads_alike (offsetPage_alike (hfaults fault hfault)) hstart).mpr hreads, hdeep⟩

/-- A list whose query fails is not read. -/
theorem offsetPage_fails {κ : Type} [LinearOrder κ] {key : StoredUtxo → κ}
    {faults : (ℕ → Bool) → Prop} {fault : ℕ → Bool} (hfault : faults fault)
    (hall : ∀ n, fault n = true) :
    ¬OffsetExact key (db.utxos.filter selected) faults
        (fun order fault => offsetPage order db fault selected) q := by
  intro h
  obtain ⟨pages, e, ⟨enough, hreads⟩, ⟨l, hl, hflat⟩, -, hending⟩ :=
    h (fun _ rows => rows.insertionSort fun a b => key a ≤ key b) fault
      (fun _ rows => ordered_sort rows) hfault
  have hask : follow (offsetPage (fun _ rows => rows.insertionSort fun a b => key a ≤ key b) db fault
      selected) q 0 none = .error internal := by
    simp [follow, offsetPage, offsetCursor, cursor, bind, Except.bind, Except.map, hall]
  have hwalk := (walk_error hask enough).symm.trans (hreads (enough + 1) (by omega))
  obtain ⟨rfl, rfl⟩ := Prod.mk.inj (Option.some.inj hwalk)
  have hlength := congrArg List.length hflat
  have hsame := hl.length
  have hdepth : 0 < depth (pageLen q) maxOffset := Nat.mul_pos (pageLen_bounds q).1 (Nat.succ_pos _)
  rw [List.flatten_nil, List.length_nil, List.length_take] at hlength
  exact absurd (hending.mpr (by omega)) (by simp)

/-! ## Pages behind a place -/

theorem last_of_long {ρ : Type} {len : ℕ} {l : List ρ} (hlen : 0 < len) (hlong : len < l.length) :
    ∃ r, (l.take len).getLast? = some r := by
  have hne : l.take len ≠ [] := by
    intro hnil
    have hlength := congrArg List.length hnil
    rw [List.length_take, List.length_nil] at hlength
    omega
  exact ⟨_, List.getLast?_eq_some_getLast hne⟩

/-- What makes the pages of a list go on: every selected row has a place behind the start, and the place
reads back from its text. -/
structure Placed {α : Type} [LinearOrder α] (start : α ×ₗ List ℕ ×ₗ ℤ) (head : Text → Option α)
    (place : StoredUtxo → Option (α ×ₗ List ℕ ×ₗ ℤ)) (write : StoredUtxo → Text)
    (key : StoredUtxo → α ×ₗ List ℕ ×ₗ ℤ) (rows : List StoredUtxo) : Prop where
  place_eq : ∀ u ∈ rows, place u = some (key u)
  behind : ∀ u ∈ rows, start < key u
  reads : ∀ u ∈ rows, placeCursor start head (some (write u)) = .ok (key u)

/-- The cursor text of the last row of a page, or no cursor. -/
def PlaceText {κ : Type} (key : StoredUtxo → κ) (write : StoredUtxo → Text) (rows : List StoredUtxo)
    (s : Option κ) (t : Option Text) : Prop :=
  s = none ∧ t = none ∨ ∃ u ∈ rows, s = some (key u) ∧ t = some (write u)

variable {α : Type} [LinearOrder α] {start : α ×ₗ List ℕ ×ₗ ℤ} {head : Text → Option α}
variable {place : StoredUtxo → Option (α ×ₗ List ℕ ×ₗ ℤ)} {write : StoredUtxo → Text}
variable {key : StoredUtxo → α ×ₗ List ℕ ×ₗ ℤ}

theorem placePage_alike (hplaced : Placed start head place write key (db.utxos.filter selected))
    (horder : Answers key order) (n : ℕ) (s : Option (α ×ₗ List ℕ ×ₗ ℤ)) (t : Option Text)
    (h : PlaceText key write (db.utxos.filter selected) s t) :
    Alike (PlaceText key write (db.utxos.filter selected))
      (keysetAsk key (pageLen q) order (db.utxos.filter selected) n s)
      (follow (placePage order db start head place write selected) q n t) := by
  have hafter : ∃ a, placeCursor start head t = .ok a ∧ ∀ u ∈ db.utxos.filter selected,
      decide (a < key u) = after key s u := by
    rcases h with ⟨rfl, rfl⟩ | ⟨u, hu, rfl, rfl⟩
    · exact ⟨start, rfl, fun u hu => decide_eq_true (hplaced.behind u hu)⟩
    · exact ⟨key u, hplaced.reads u hu, fun _ _ => rfl⟩
  obtain ⟨a, hcursor, hafter⟩ := hafter
  have hrows : (db.utxos.filter fun u => selected u && (place u).any (a < ·)) =
      behind key (db.utxos.filter selected) s := by
    rw [behind, List.filter_filter]
    refine List.filter_congr fun u hu => ?_
    by_cases hselected : selected u = true
    · have hmem := List.mem_filter.mpr ⟨hu, hselected⟩
      simp [hselected, hplaced.place_eq u hmem, hafter u hmem]
    · simp [hselected]
  have hserved : follow (placePage order db start head place write selected) q n t =
      .ok (cut (pageLen q) (fun page => (page.getLast?.map write).map some)
        (order n (behind key (db.utxos.filter selected) s))) := by
    have hpage : pageLen ⟨t, q.length, q.sort⟩ = pageLen q := rfl
    simp [follow, placePage, hcursor, bind, Except.bind, Except.map, hpage, cut_map, ← hrows]
  rw [hserved, keysetAsk]
  refine alike_cut fun hlong => ?_
  obtain ⟨u, hu⟩ := last_of_long (pageLen_bounds q).1 hlong
  have hmem : u ∈ db.utxos.filter selected :=
    (List.filter_sublist (l := db.utxos.filter selected) (p := after key s)).subset
      ((horder n _).perm.mem_iff.mp (List.mem_of_mem_take (List.mem_of_getLast? hu)))
  exact ⟨_, _, by rw [hu]; rfl, by rw [hu]; rfl, .inr ⟨u, hmem, rfl, rfl⟩⟩

/-- A list that goes on from places is exact: whatever the database answers, the client gets every row
once and in order. -/
def PlaceExact {κ : Type} [LinearOrder κ] (key : StoredUtxo → κ) (rows : List StoredUtxo)
    (handler : (ℕ → List StoredUtxo → List StoredUtxo) → ℕ → PageQuery →
      Except ApiError (Page Text StoredUtxo)) (q : PageQuery) : Prop :=
  ∀ order, Answers key order → ∃ pages, Reads (follow (handler order) q) none pages none ∧
    Complete key (pageLen q) rows pages

theorem placePage_exact (hplaced : Placed start head place write key (db.utxos.filter selected))
    (hkeys : ((db.utxos.filter selected).map key).Nodup) :
    PlaceExact key (db.utxos.filter selected)
      (fun order => placePage order db start head place write selected) q := by
  intro order horder
  obtain ⟨pages, hreads, hcomplete⟩ := (keyset_iff (ε := ApiError) (pageLen_bounds q).1 horder).mpr
    (uncut_nodup hkeys)
  exact ⟨pages, (reads_alike (placePage_alike hplaced horder) (.inl ⟨rfl, rfl⟩)).mpr hreads, hcomplete⟩

end

theorem place_injective {α : Type} {h h' : α} {t t' : Bytes} {i i' : ℤ}
    (heq : place h t i = place h' t' i') : t = t' ∧ i = i' := by
  have hpair := (Prod.mk.inj (toLex.injective heq)).2
  obtain ⟨htxid, hidx⟩ := Prod.mk.inj (toLex.injective hpair)
  exact ⟨List.map_injective_iff.mpr (fun _ _ => UInt8.toNat_inj.mp) htxid, hidx⟩

theorem row_outpoint (u : StoredUtxo) :
    u.row.txid = u.outpoint.1.toList ∧ u.row.idx = u.outpoint.2.toInt32 := by
  unfold StoredUtxo.row rowOf
  cases u.tracked <;> exact ⟨rfl, rfl⟩

/-- No two rows have one outpoint, so none have one place. -/
theorem places_nodup {α : Type} (db : NamesDb) (selected : StoredUtxo → Bool) (head : StoredUtxo → α) :
    ((db.utxos.filter selected).map fun u => place (head u) u.row.txid u.row.idx.toInt).Nodup := by
  refine List.Nodup.map_on ?_ (utxos_nodup db selected)
  intro u hu v hv heq
  obtain ⟨htxid, hidx⟩ := place_injective heq
  rw [(row_outpoint u).1, (row_outpoint v).1] at htxid
  rw [(row_outpoint u).2, (row_outpoint v).2] at hidx
  refine List.inj_on_of_nodup_map db.outpoints (List.mem_of_mem_filter hu) (List.mem_of_mem_filter hv)
    (Prod.ext (List.Vector.toList_injective htxid) ?_)
  have hcast := congrArg Int32.toUInt32 (Int32.toInt_inj.mp hidx)
  simpa using hcast

/-- A place before an outpoint with a transaction id. -/
theorem place_lt {α : Type} [LinearOrder α] {h h' : α} {t : Bytes} {i i' : ℤ} (hle : h ≤ h')
    (ht : t ≠ []) : place h [] i < place h' t i' := by
  rcases hle.lt_or_eq with hlt | rfl
  · exact Prod.Lex.toLex_lt_toLex.mpr (.inl hlt)
  · refine Prod.Lex.toLex_lt_toLex.mpr (.inr ⟨rfl, Prod.Lex.toLex_lt_toLex.mpr (.inl ?_)⟩)
    obtain ⟨c, t, rfl⟩ := List.exists_cons_of_ne_nil ht
    exact List.nil_lt_cons _ _

theorem placeCursor_text {α : Type} {start : α ×ₗ List ℕ ×ₗ ℤ} {head : Text → Option α} {text : Text}
    {h : α} (hhead : head text = some h) (hcolon : ':' ∉ text) (txid : Bytes) (idx : Int32) :
    placeCursor start head (some (joinFields [text, hexEncode txid, decimalText idx.toInt])) =
      .ok (place h txid idx.toInt) := by
  have hne : joinFields [text, hexEncode txid, decimalText idx.toInt] ≠ [] := by
    simp [joinFields, List.intercalate]
  have hsplit : (joinFields [text, hexEncode txid, decimalText idx.toInt]).splitOn ':' =
      [text, hexEncode txid, decimalText idx.toInt] := by
    refine splitOn_join ?_ (by simp)
    simp only [List.mem_cons, List.not_mem_nil, or_false]
    rintro f (rfl | rfl | rfl)
    · exact hcolon
    · exact colon_hexEncode txid
    · exact colon_decimalText _
  have hfilter : (some (joinFields [text, hexEncode txid, decimalText idx.toInt])).filter (· ≠ []) =
      some (joinFields [text, hexEncode txid, decimalText idx.toInt]) := by
    simp only [Option.filter_some, hne, ne_eq, not_false_eq_true, decide_true, if_true]
  rw [placeCursor, hfilter]
  simp only [hsplit, hhead, hexDecode_hexEncode, parseI32_decimalText]

theorem isName_row {u : StoredUtxo} (h : isName u = true) : ∃ s, u.tracked = .name s := by
  unfold isName StoredUtxo.row rowOf at h
  cases htracked : u.tracked with
  | name s => exact ⟨s, rfl⟩
  | gap s =>
    rw [htracked] at h
    exact absurd (show (ascii "gap" == ascii "name") = true from h) (by decide)
  | offer s =>
    rw [htracked] at h
    exact absurd (show (ascii "offer" == ascii "name") = true from h) (by decide)
  | shard s =>
    rw [htracked] at h
    exact absurd (show (ascii "shard" == ascii "name") = true from h) (by decide)

theorem txid_ne_nil (u : StoredUtxo) : u.row.txid ≠ [] := by
  intro h
  have hlength := congrArg List.length ((row_outpoint u).1.symm.trans h)
  simp at hlength

theorem all_placed (db : NamesDb) :
    Placed (place [] [] (-1)) (fun t => (hexDecode t).map bytea) allPlace
      (fun u => joinFields [hexEncode (u.row.key.getD []), hexEncode u.row.txid,
        decimalText u.row.idx.toInt]) allKey (db.utxos.filter nameSelect) where
  place_eq u hu := by
    have hselected := (List.mem_filter.mp hu).2
    obtain ⟨s, hs⟩ := isName_row (Bool.and_eq_true_iff.mp hselected).1
    simp [allPlace, allKey, StoredUtxo.row, hs, rowOf]
  behind u hu := place_lt (not_lt.mp (List.not_lt_nil _)) (txid_ne_nil u)
  reads u hu := placeCursor_text (by rw [hexDecode_hexEncode]; rfl) (colon_hexEncode _) _ _

theorem refundable_placed (db : NamesDb) (c : Ctx) :
    Placed (place (-2 ^ 63) [] (-1)) (fun t => (KaText.parseI64 t).map Int64.toInt)
      (fun u => some (refundKey u))
      (fun u => joinFields [decimalText (u.row.refundAfter.getD 0).toInt, hexEncode u.row.txid,
        decimalText u.row.idx.toInt]) refundKey (db.utxos.filter (refundable c)) where
  place_eq u hu := rfl
  behind u hu := place_lt (Int64.le_toInt _) (txid_ne_nil u)
  reads u hu := placeCursor_text (by rw [parseI64_decimalText]; rfl) (colon_decimalText _) _ _

/-! ## Pages of events -/

section
variable {order : ℕ → List StoredEvent → List StoredEvent} {db : NamesDb} {q : PageQuery}
variable {filter : StoredEvent → Bool}

/-- The rows that a page can show: a client that gives no cursor asks below the last id there is. -/
def shownEvents (db : NamesDb) (filter : StoredEvent → Bool) : List StoredEvent :=
  db.history.filter fun e => decide (e.id.toInt < 2 ^ 63 - 1) && filter e

/-- The cursor text of the last row of a page, or no cursor. -/
def EventText (rows : List StoredEvent) (s : Option ℤᵒᵈ) (t : Option Text) : Prop :=
  s = none ∧ t = none ∨ ∃ e ∈ rows, s = some (eventKey e) ∧ t = some (decimalText e.id.toInt)

theorem cursor_event (e : StoredEvent) (h : 0 < e.id.toInt) :
    (cursor (some (decimalText e.id.toInt)) : ℤ) = e.id.toInt := by
  rw [cursor, Option.bind_some, parseI64_decimalText, Option.map_some, Option.getD_some,
    Int.toNat_of_nonneg h.le]

theorem eventsPage_alike (horder : Answers eventKey order) (n : ℕ) (s : Option ℤᵒᵈ) (t : Option Text)
    (h : EventText (shownEvents db filter) s t) :
    Alike (EventText (shownEvents db filter))
      (keysetAsk eventKey (pageLen q) order (shownEvents db filter) n s)
      (follow (eventsPage order db filter) q n t) := by
  have hrows : (db.history.filter fun e => decide (e.id.toInt <
      if 0 < cursor t then (cursor t : ℤ) else 2 ^ 63 - 1) && filter e) =
        behind eventKey (shownEvents db filter) s := by
    rw [behind, shownEvents, List.filter_filter]
    refine List.filter_congr fun e he => ?_
    rcases h with ⟨rfl, rfl⟩ | ⟨last, hlast, rfl, rfl⟩
    · simp [cursor, after]
    · have hpos := db.serial last (List.mem_of_mem_filter hlast)
      have hcursor := cursor_event last hpos
      have hsome : 0 < cursor (some (decimalText last.id.toInt)) := by omega
      have hmax : last.id.toInt < 2 ^ 63 - 1 := by
        have hshown := (List.mem_filter.mp hlast).2
        simp only [Bool.and_eq_true, decide_eq_true_eq] at hshown
        exact hshown.1
      rw [if_pos hsome, hcursor]
      have hkey : (eventKey last < eventKey e) ↔ e.id.toInt < last.id.toInt := Iff.rfl
      simp only [after, Option.all_some, hkey]
      by_cases hlt : e.id.toInt < last.id.toInt
      · have hbelow : e.id.toInt < 2 ^ 63 - 1 := by omega
        rw [decide_eq_true hlt, decide_eq_true hbelow]
        rfl
      · simp [hlt]
  have hserved : follow (eventsPage order db filter) q n t =
      .ok (cut (pageLen q) (fun page => (page.getLast?.map fun e => decimalText e.id.toInt).map some)
        (order n (behind eventKey (shownEvents db filter) s))) := by
    have hpage : pageLen ⟨t, q.length, q.sort⟩ = pageLen q := rfl
    simp [follow, eventsPage, Except.map, hpage, cut_map, ← hrows]
  rw [hserved, keysetAsk]
  refine alike_cut fun hlong => ?_
  obtain ⟨e, he⟩ := last_of_long (pageLen_bounds q).1 hlong
  have hmem : e ∈ shownEvents db filter := List.mem_of_mem_filter
    ((horder n _).perm.mem_iff.mp (List.mem_of_mem_take (List.mem_of_getLast? he)))
  exact ⟨_, _, by rw [he]; rfl, by rw [he]; rfl, .inr ⟨e, hmem, rfl, rfl⟩⟩

/-- A page of events is exact: whatever the database answers, the client gets every event once, newest
first. -/
def EventsExact (rows : List StoredEvent)
    (handler : (ℕ → List StoredEvent → List StoredEvent) → ℕ → PageQuery →
      Except ApiError (Page Text StoredEvent)) (q : PageQuery) : Prop :=
  ∀ order, Answers eventKey order → ∃ pages, Reads (follow (handler order) q) none pages none ∧
    Complete eventKey (pageLen q) rows pages

theorem events_nodup (db : NamesDb) (filter : StoredEvent → Bool) :
    ((shownEvents db filter).map eventKey).Nodup := by
  have hids : (db.history.map eventKey).Nodup := by
    refine List.Nodup.map_on ?_ (List.Nodup.of_map _ db.ids)
    intro e he f hf heq
    exact List.inj_on_of_nodup_map db.ids he hf (Int64.toInt_inj.mp (OrderDual.toDual.injective heq))
  exact hids.sublist (List.filter_sublist.map _)

/-- The events are read exactly when none has the last id there is. -/
theorem eventsPage_exact : EventsExact (db.history.filter filter)
    (fun order => eventsPage order db filter) q ↔
      ∀ e ∈ db.history, filter e = true → e.id.toInt ≠ 2 ^ 63 - 1 := by
  have hreads (order : ℕ → List StoredEvent → List StoredEvent) (horder : Answers eventKey order) :=
    (keyset_iff (ε := ApiError) (pageLen_bounds q).1 horder).mpr (uncut_nodup (events_nodup db filter))
  constructor
  · intro h e he hfilter hlast
    let order : ℕ → List StoredEvent → List StoredEvent := fun _ rows =>
      rows.insertionSort fun a b => eventKey a ≤ eventKey b
    have horder : Answers eventKey order := fun _ rows => ordered_sort rows
    obtain ⟨pages, hpages, hcomplete⟩ := h order horder
    obtain ⟨pages', hpages', hcomplete'⟩ := hreads order horder
    obtain ⟨rfl, -⟩ := hpages.unique
      ((reads_alike (eventsPage_alike horder) (.inl ⟨rfl, rfl⟩)).mpr hpages')
    have hmem : e ∈ shownEvents db filter := hcomplete'.ordered.perm.mem_iff.mp
      (hcomplete.ordered.perm.mem_iff.mpr (List.mem_filter.mpr ⟨he, hfilter⟩))
    have hshown := (List.mem_filter.mp hmem).2
    simp only [Bool.and_eq_true, decide_eq_true_eq] at hshown
    omega
  · intro h order horder
    have hrows : shownEvents db filter = db.history.filter filter := by
      refine List.filter_congr fun e he => ?_
      by_cases hfilter : filter e = true
      · have hne := h e he hfilter
        have hlt := e.id.toInt_lt
        have hbelow : e.id.toInt < 2 ^ 63 - 1 := by omega
        rw [hfilter, decide_eq_true hbelow]
        rfl
      · simp [hfilter]
    obtain ⟨pages, hpages, hcomplete⟩ := hreads order horder
    exact ⟨pages, (reads_alike (eventsPage_alike horder) (.inl ⟨rfl, rfl⟩)).mpr hpages,
      hrows ▸ hcomplete⟩

end

/-! ## Sets by status -/

theorem name_columns {u : StoredUtxo} (h : isName u = true) :
    ∃ price expiresAt, u.row.price = some price ∧ u.row.expiresAt = some expiresAt := by
  obtain ⟨s, hs⟩ := isName_row h
  exact ⟨s.price, s.expiresAt, by rw [StoredUtxo.row, hs]; rfl, by rw [StoredUtxo.row, hs]; rfl⟩

/-- The three sets agree with the status of every name, and the listings are the priced active ones. -/
structure StatusesAgree (db : NamesDb) (c : Ctx) : Prop where
  lapsed : ∀ u ∈ db.utxos, nameSelect u = true → (lapsed c u = true ↔ rowStatus c u = .lapsed)
  grace : ∀ u ∈ db.utxos, nameSelect u = true → (inGrace c u = true ↔ rowStatus c u = .grace)
  listed : ∀ u ∈ db.utxos, nameSelect u = true →
    (listed c u = true ↔ rowStatus c u = .active ∧ ∃ price, u.row.price = some price ∧ 0 < price.toInt)

/-- No sum of a name's expiry and the grace period leaves the column. -/
def Fits (db : NamesDb) (c : Ctx) : Prop := ∀ u ∈ db.utxos, isName u = true → overflows c u = false

/-- No name is released before it expires, as a negative grace period would have it. -/
def ReleasedLate (db : NamesDb) (c : Ctx) : Prop :=
  ∀ u ∈ db.utxos, nameSelect u = true → ∀ e, u.row.expiresAt = some e → c.now.toInt < e.toInt →
    c.now.toInt < e.toInt + c.graceMs.toInt

theorem sum_toInt {c : Ctx} {u : StoredUtxo} {e : Int64} (he : u.row.expiresAt = some e)
    (hfits : overflows c u = false) : (e + c.graceMs).toInt = e.toInt + c.graceMs.toInt := by
  rw [overflows, he, Option.any_some, Bool.or_eq_false_iff, decide_eq_false_iff_not,
    decide_eq_false_iff_not] at hfits
  rw [Int64.toInt_add, Int.bmod_eq_of_le (by omega) (by omega)]

/-- Where a selected name stands, and its status. -/
theorem status_cases {db : NamesDb} {c : Ctx} (hfits : Fits db c) (hlate : ReleasedLate db c)
    {u : StoredUtxo} (hu : u ∈ db.utxos) (hselected : nameSelect u = true) :
    ∃ e price, u.row.expiresAt = some e ∧ u.row.price = some price ∧
      (c.now.toInt < e.toInt ∧ c.now.toInt < e.toInt + c.graceMs.toInt ∧ rowStatus c u = .active ∨
        e.toInt ≤ c.now.toInt ∧ c.now.toInt < e.toInt + c.graceMs.toInt ∧ rowStatus c u = .grace ∨
        e.toInt ≤ c.now.toInt ∧ e.toInt + c.graceMs.toInt ≤ c.now.toInt ∧ rowStatus c u = .lapsed) := by
  have hname := (Bool.and_eq_true_iff.mp hselected).1
  obtain ⟨price, e, hprice, he⟩ := name_columns hname
  refine ⟨e, price, he, hprice, ?_⟩
  have hlate := hlate u hu hselected e he
  have hstatus : rowStatus c u = if c.now.toInt < e.toInt then .active
      else if c.now.toInt < e.toInt + c.graceMs.toInt then .grace else .lapsed := by
    simp only [rowStatus, he, Option.getD_some, nameStatus, Int64.lt_iff_toInt_lt,
      sum_toInt he (hfits u hu hname)]
  by_cases hactive : c.now.toInt < e.toInt
  · exact .inl ⟨hactive, hlate hactive, by rw [hstatus, if_pos hactive]⟩
  · rw [if_neg hactive] at hstatus
    by_cases hgrace : c.now.toInt < e.toInt + c.graceMs.toInt
    · exact .inr (.inl ⟨by omega, hgrace, by rw [hstatus, if_pos hgrace]⟩)
    · exact .inr (.inr ⟨by omega, by omega, by rw [hstatus, if_neg hgrace]⟩)

theorem statuses_iff {db : NamesDb} {c : Ctx} (hfits : Fits db c) :
    StatusesAgree db c ↔ ReleasedLate db c := by
  constructor
  · intro h u hu hselected e he hactive
    by_contra hnot
    have hlapsed : lapsed c u = true := by
      simp only [lapsed, hselected, he, Option.any_some, Bool.true_and, decide_eq_true_eq]
      omega
    have hstatus := (h.lapsed u hu hselected).mp hlapsed
    rw [rowStatus, he, Option.getD_some, nameStatus, if_pos (Int64.lt_iff_toInt_lt.mpr hactive)] at hstatus
    cases hstatus
  · intro h
    refine ⟨fun u hu hselected => ?_, fun u hu hselected => ?_, fun u hu hselected => ?_⟩
    · obtain ⟨e, price, he, -, hcases⟩ := status_cases hfits h hu hselected
      simp only [lapsed, hselected, he, Option.any_some, Bool.true_and, decide_eq_true_eq]
      rcases hcases with ⟨h₁, h₂, hs⟩ | ⟨h₁, h₂, hs⟩ | ⟨h₁, h₂, hs⟩ <;> simp [hs] <;> omega
    · obtain ⟨e, price, he, -, hcases⟩ := status_cases hfits h hu hselected
      simp only [inGrace, hselected, he, Option.any_some, Bool.true_and, Bool.and_eq_true,
        decide_eq_true_eq]
      rcases hcases with ⟨h₁, h₂, hs⟩ | ⟨h₁, h₂, hs⟩ | ⟨h₁, h₂, hs⟩ <;> simp [hs] <;> omega
    · obtain ⟨e, price, he, hprice, hcases⟩ := status_cases hfits h hu hselected
      simp only [listed, hselected, he, hprice, Option.any_some, Bool.true_and, Bool.and_eq_true,
        decide_eq_true_eq, Option.some.injEq, exists_eq_left']
      rcases hcases with ⟨h₁, h₂, hs⟩ | ⟨h₁, h₂, hs⟩ | ⟨h₁, h₂, hs⟩ <;> simp [hs] <;> omega

/-! ## The whole API -/

section
variable (db : NamesDb) (hash : Bytes → Bytes) (c : Ctx) (q : PageQuery)

/-- Every list of the API is read once and to its end, and the sets by status are those of the names. -/
structure PagingExact : Prop where
  listings : OffsetExact (listingKey q.sort) (db.utxos.filter (listed c)) (fun _ => True)
    (fun order _ => listings order db c) q
  expiring : OffsetExact expiryKey (db.utxos.filter (lapsed c)) (Faults db c)
    (fun order => expiring order db c) q
  grace : OffsetExact expiryKey (db.utxos.filter (inGrace c)) (Faults db c)
    (fun order => grace order db c) q
  all : PlaceExact allKey (db.utxos.filter nameSelect) (fun order => all order db) q
  refundable : PlaceExact refundKey (db.utxos.filter (refundable c))
    (fun order => offersRefundable order db c) q
  history : ∀ input name, normalizeName input = some name →
    EventsExact (db.history.filter (ofName hash name)) (fun order => nameHistory order db hash input) q
  market : EventsExact (db.history.filter ofMarket) (fun order => marketActivity order db) q
  activity : EventsExact (db.history.filter ofRegistry) (fun order => namesActivity order db) q
  statuses : StatusesAgree db c

/-- No offset page that is served ends between two rows of one key, no sum overflows, no name is
released early, and no event that is shown has the last id there is. -/
structure EndsApart : Prop where
  listings : Uncut (pageLen q)
    ((sortedKeys (listingKey q.sort) (db.utxos.filter (listed c))).take (maxOffset + 1))
  expiring : Uncut (pageLen q) ((sortedKeys expiryKey (db.utxos.filter (lapsed c))).take (maxOffset + 1))
  grace : Uncut (pageLen q) ((sortedKeys expiryKey (db.utxos.filter (inGrace c))).take (maxOffset + 1))
  fits : Fits db c
  late : ReleasedLate db c
  ids : ∀ e ∈ db.history, ((∃ input name, normalizeName input = some name ∧ ofName hash name e = true) ∨
    ofMarket e = true ∨ ofRegistry e = true) → e.id.toInt ≠ 2 ^ 63 - 1

variable {db hash c q}

theorem faults_false (hfits : Fits db c) {fault : ℕ → Bool} (h : Faults db c fault) (n : ℕ) :
    fault n = false := by
  by_contra hn
  obtain ⟨u, hu, hname, hover⟩ := h.possible n (by simpa using hn)
  exact absurd hover (by simp [hfits u hu hname])

theorem faults_exists (hfits : Fits db c) : ∃ fault, Faults db c fault :=
  ⟨fun _ => false, fun _ ⟨u, hu, hselected, hover⟩ => absurd hover
    (by simp [hfits u hu (Bool.and_eq_true_iff.mp hselected).1]), nofun⟩

/-- A sum that overflows may fail every query. -/
theorem fits_of_expiring (h : OffsetExact expiryKey (db.utxos.filter (lapsed c)) (Faults db c)
    (fun order => expiring order db c) q) : Fits db c := by
  intro u hu hname
  by_contra hover
  have hfaults : Faults db c fun _ => true :=
    ⟨fun _ _ => rfl, fun _ _ => ⟨u, hu, hname, by simpa using hover⟩⟩
  exact offsetPage_fails hfaults (fun _ => rfl) h

theorem nameHistory_some {input : Text} {name : Bytes} (h : normalizeName input = some name) :
    (fun order => nameHistory order db hash input) = fun order => eventsPage order db (ofName hash name) := by
  funext order n q
  rw [nameHistory, h]

theorem listings_exact : OffsetExact (listingKey q.sort) (db.utxos.filter (listed c)) (fun _ => True)
    (fun order _ => listings order db c) q ↔ Uncut (pageLen q)
      ((sortedKeys (listingKey q.sort) (db.utxos.filter (listed c))).take (maxOffset + 1)) := by
  have hfaults : ∀ fault : ℕ → Bool, (fun _ => false) = fault → ∀ n, fault n = false :=
    fun _ h n => (congrFun h n).symm
  rw [← offsetPage_exact ⟨fun _ => false, rfl⟩ hfaults]
  constructor
  · rintro h order _ horder rfl
    exact h order (fun _ => false) horder trivial
  · intro h order _ horder _
    exact h order _ horder rfl

/-- A client that follows `next` from the start reads every list once and to its end, whatever order the
database gives to rows that the query does not tell apart, and the sets by status are right, exactly when
no offset page ends between two such rows, no expiry overflows or falls before itself, and no event shown
has the last id. -/
theorem paging_exact_iff : PagingExact db hash c q ↔ EndsApart db hash c q := by
  constructor
  · intro h
    have hfits := fits_of_expiring h.expiring
    have hfaults : ∀ fault, Faults db c fault → ∀ n, fault n = false := fun _ => faults_false hfits
    refine ⟨listings_exact.mp h.listings, (offsetPage_exact (faults_exists hfits) hfaults).mp h.expiring,
      (offsetPage_exact (faults_exists hfits) hfaults).mp h.grace, hfits,
      (statuses_iff hfits).mp h.statuses, ?_⟩
    rintro e he (⟨input, name, hname, hshown⟩ | hshown | hshown)
    · have hhistory := h.history input name hname
      rw [nameHistory_some hname] at hhistory
      exact eventsPage_exact.mp hhistory e he hshown
    · exact eventsPage_exact.mp h.market e he hshown
    · exact eventsPage_exact.mp h.activity e he hshown
  · intro h
    have hfaults : ∀ fault, Faults db c fault → ∀ n, fault n = false := fun _ => faults_false h.fits
    refine ⟨listings_exact.mpr h.listings,
      (offsetPage_exact (faults_exists h.fits) hfaults).mpr h.expiring,
      (offsetPage_exact (faults_exists h.fits) hfaults).mpr h.grace,
      placePage_exact (all_placed db) (places_nodup db _ fun u => bytea (u.row.key.getD [])),
      placePage_exact (refundable_placed db c) (places_nodup db _ fun u => (u.row.refundAfter.getD 0).toInt),
      fun input name hname => ?_,
      eventsPage_exact.mpr fun e he hshown => h.ids e he (.inr (.inl hshown)),
      eventsPage_exact.mpr fun e he hshown => h.ids e he (.inr (.inr hshown)),
      (statuses_iff h.fits).mpr h.late⟩
    rw [nameHistory_some hname]
    exact eventsPage_exact.mpr fun e he hshown => h.ids e he (.inl ⟨input, name, hname, hshown⟩)

end

/-! ## Two names of one block -/

def zeros (n : UInt8) : Bytes32 := List.Vector.replicate 32 n

def sampleName (n : UInt8) : StoredUtxo where
  outpoint := (zeros n, 0)
  tracked := .name ⟨zeros n, padName (ascii "a"), zeros 1, 5, 0, 100⟩
  createdDaa := 7
  refuted := false

/-- Two priced names, registered at one DAA score. -/
def sampleDb : NamesDb where
  utxos := [sampleName 1, sampleName 2]
  history := []
  outpoints := by decide
  ids := List.nodup_nil
  serial := nofun

/-- Pages of one row cut between the two. -/
theorem listings_tie :
    ¬PagingExact sampleDb id ⟨10, 20, 30⟩ ⟨none, some 1, none⟩ := by
  intro h
  have huncut := listings_exact.mp h.listings 1
  revert huncut
  decide +kernel

end KaChatIndexer.NamesPaging
