import Mathlib.Data.Finset.Card
import Mathlib.Data.List.Sort

/-!
# Paging by time

Rows come in the order of their times; several rows may be of one message. A page shows each message
once, by its first row from a cursor on, and at most as many as a limit allows. A client goes on from
the time it received last, until a page brings nothing new.
-/
namespace CursorPaging

variable {ρ ι : Type*} [DecidableEq ι] (id : ρ → ι) (time : ρ → ℕ)

/-- The rows whose message has not been seen yet, each message once. -/
def firsts : List ι → List ρ → List ρ
  | _, [] => []
  | seen, r :: rows =>
    if id r ∈ seen then firsts seen rows else r :: firsts (id r :: seen) rows

def page (limit : ℕ) (rows : List ρ) : List ρ := (firsts id [] rows).take limit

variable {id time}

theorem firsts_sublist (seen : List ι) (rows : List ρ) : (firsts id seen rows).Sublist rows := by
  induction rows generalizing seen with
  | nil => exact .slnil
  | cons r rows ih =>
    rw [firsts]
    split
    · exact (ih seen).cons r
    · exact (ih _).cons_cons r

theorem mem_firsts {seen : List ι} {rows : List ρ} {i : ι} :
    i ∈ (firsts id seen rows).map id ↔ i ∉ seen ∧ i ∈ rows.map id := by
  induction rows generalizing seen with
  | nil => simp [firsts]
  | cons r rows ih =>
    rw [firsts]
    split
    · next hseen =>
      rw [ih, List.map_cons, List.mem_cons]
      constructor
      · exact fun ⟨hi, hmem⟩ => ⟨hi, .inr hmem⟩
      · rintro ⟨hi, rfl | hmem⟩
        · exact absurd hseen hi
        · exact ⟨hi, hmem⟩
    · next hseen =>
      rw [List.map_cons, List.mem_cons, ih, List.map_cons, List.mem_cons]
      by_cases hi : i = id r
      · simp [hi, hseen]
      · simp [hi]

theorem nodup_firsts (seen : List ι) (rows : List ρ) : ((firsts id seen rows).map id).Nodup := by
  induction rows generalizing seen with
  | nil => exact List.nodup_nil
  | cons r rows ih =>
    rw [firsts]
    split
    · exact ih seen
    · refine List.nodup_cons.mpr ⟨fun hmem => ?_, ih _⟩
      simpa using (mem_firsts.mp hmem).1

theorem length_firsts (rows : List ρ) :
    (firsts id [] rows).length = (rows.map id).toFinset.card := by
  rw [← List.length_map id, ← List.toFinset_card_of_nodup (nodup_firsts [] rows)]
  congr 1
  ext i
  simp [mem_firsts]

theorem firsts_map {ρ' : Type*} {id' : ρ' → ι} {f : ρ → ρ'} (h : ∀ r, id' (f r) = id r)
    (seen : List ι) (rows : List ρ) :
    firsts id' seen (rows.map f) = (firsts id seen rows).map f := by
  induction rows generalizing seen with
  | nil => rfl
  | cons r rows ih =>
    rw [List.map_cons, firsts, firsts, h, ih, ih]
    split <;> simp

/-- What is earlier than a row that is shown is shown before it. -/
theorem shown_before {seen : List ι} {rows : List ρ} (hsorted : rows.Pairwise (time · ≤ time ·))
    {before after : List ρ} {r x : ρ} (h : firsts id seen rows = before ++ r :: after)
    (hx : x ∈ rows) (hearlier : time x < time r) : id x ∈ seen ∨ id x ∈ before.map id := by
  induction rows generalizing seen before with
  | nil => exact absurd hx List.not_mem_nil
  | cons y rows ih =>
    obtain ⟨hhead, htail⟩ := List.pairwise_cons.mp hsorted
    rw [firsts] at h
    split at h
    · next hseen =>
      rcases List.mem_cons.mp hx with rfl | hx
      · exact .inl hseen
      · exact ih htail h hx
    · cases before with
      | nil =>
        obtain ⟨rfl, -⟩ := List.cons.inj h
        rcases List.mem_cons.mp hx with rfl | hx
        · omega
        · have hle := hhead x hx
          omega
      | cons b before =>
        obtain ⟨rfl, hrest⟩ := List.cons.inj h
        rcases List.mem_cons.mp hx with rfl | hx
        · exact .inr (by simp)
        · rcases ih htail hrest hx with hseen | hbefore
          · rcases List.mem_cons.mp hseen with heq | hseen
            · exact .inr (by simp [heq])
            · exact .inl hseen
          · exact .inr (List.mem_cons_of_mem _ hbefore)

/-- A message is on the page when few enough others come first. -/
theorem mem_take_firsts {seen : List ι} {rows : List ρ} {limit : ℕ} {i : ι} (hi : i ∉ seen) :
    i ∈ ((firsts id seen rows).take limit).map id ↔
      i ∈ rows.map id ∧ (firsts id seen (rows.takeWhile (id · ≠ i))).length < limit := by
  induction rows generalizing seen limit with
  | nil => simp [firsts]
  | cons r rows ih =>
    rw [firsts]
    by_cases hr : id r = i
    · subst hr
      rw [List.takeWhile_cons_of_neg (by simp), if_neg hi]
      cases limit with
      | zero => simp
      | succ limit => simp [firsts]
    · have hri : ¬ i = id r := fun h => hr h.symm
      rw [List.takeWhile_cons_of_pos (by simpa using hr), firsts]
      split
      · rw [ih hi]
        simp [hri]
      · cases limit with
        | zero => simp
        | succ limit =>
          rw [List.take_succ_cons, List.map_cons, List.mem_cons,
            ih (by simpa [hri] using hi)]
          simp [hri]

/-- The number of other messages with a row from the cursor up to the first row of this one. -/
def ahead (id : ρ → ι) (rows : List ρ) (i : ι) : ℕ :=
  ((rows.takeWhile (id · ≠ i)).map id).toFinset.card

theorem mem_page {rows : List ρ} {limit : ℕ} {i : ι} :
    i ∈ (page id limit rows).map id ↔ i ∈ rows.map id ∧ ahead id rows i < limit := by
  unfold page ahead
  rw [mem_take_firsts List.not_mem_nil, length_firsts]

theorem nodup_page (limit : ℕ) (rows : List ρ) : ((page id limit rows).map id).Nodup :=
  (nodup_firsts [] rows).sublist ((List.take_sublist _ _).map id)

/-! ## Following the last time -/

/-- A client asks from the time it received last on, skips what it has, and stops at the first page
that brings nothing new. -/
def collect (ask : ℕ → List (ι × ℕ)) : ℕ → List ι → ℕ → Option (List ι)
  | 0, _, _ => none
  | fuel + 1, received, cursor =>
    match (ask cursor).getLast?, ((ask cursor).map (·.1)).filter (· ∉ received) with
    | some last, i :: more => collect ask fuel (received ++ i :: more) last.2
    | _, _ => some received

variable (id time)

/-- What a client has that goes on from a time: every message with an earlier row, and of the others
only some with a row at that time. -/
structure Continues (rows : List ρ) (received : List ι) (cursor : ℕ) : Prop where
  nodup : received.Nodup
  earlier : ∀ r ∈ rows, time r < cursor → id r ∈ received
  stored : ∀ i ∈ received, ∃ r ∈ rows, id r = i ∧ time r ≤ cursor
  last : received = [] ∧ cursor = 0 ∨ ∃ r ∈ rows, id r ∈ received ∧ time r = cursor

/-- A page from the time on brings something new: either each message that has no earlier row is on
it, or one is that has only later rows. -/
def Passable (limit : ℕ) (rows : List ρ) (cursor : ℕ) : Prop :=
  (∀ i ∈ rows.map id, (∀ r ∈ rows, id r = i → cursor ≤ time r) →
    ahead id (rows.filter (cursor ≤ time ·)) i < limit) ∨
  ∃ i ∈ rows.map id, (∀ r ∈ rows, id r = i → cursor < time r) ∧
    ahead id (rows.filter (cursor ≤ time ·)) i < limit

/-- The client ends with every message once. -/
def Completes (ask : ℕ → List (ι × ℕ)) (messages : List ι) (received : List ι) (cursor : ℕ) : Prop :=
  ∃ enough, ∀ fuel ≥ enough, ∃ result, collect ask fuel received cursor = some result ∧
    result.Nodup ∧ ∀ i, i ∈ result ↔ i ∈ messages

/-- The page of the rows from a time on. -/
def askRows (limit : ℕ) (rows : List ρ) (cursor : ℕ) : List (ι × ℕ) :=
  (page id limit (rows.filter (cursor ≤ time ·))).map fun r => (id r, time r)

variable {id time}
variable {rows : List ρ} {limit : ℕ} {received : List ι} {cursor : ℕ}

theorem askRows_map :
    askRows Prod.fst Prod.snd limit (rows.map fun r => (id r, time r)) =
      askRows id time limit rows := by
  funext cursor
  have hfirsts : firsts Prod.fst [] ((rows.filter (cursor ≤ time ·)).map fun r => (id r, time r)) =
      (firsts id [] (rows.filter (cursor ≤ time ·))).map fun r => (id r, time r) :=
    firsts_map (fun _ => rfl) [] _
  rw [askRows, askRows, page, page, List.filter_map]
  simp only [Function.comp_def]
  rw [hfirsts, List.map_take]
  simp [Function.comp_def]

theorem askRows_ids :
    (askRows id time limit rows cursor).map (·.1) =
      (page id limit (rows.filter (cursor ≤ time ·))).map id := by
  simp [askRows]

theorem mem_askRows {i : ι} :
    i ∈ (askRows id time limit rows cursor).map (·.1) ↔
      (∃ r ∈ rows, cursor ≤ time r ∧ id r = i) ∧
        ahead id (rows.filter (cursor ≤ time ·)) i < limit := by
  rw [askRows_ids, mem_page]
  simp [and_assoc]

theorem askRows_row {item : ι × ℕ} (h : item ∈ askRows id time limit rows cursor) :
    ∃ r ∈ rows, cursor ≤ time r ∧ item = (id r, time r) := by
  obtain ⟨r, hr, rfl⟩ := List.mem_map.mp h
  have hmem := (firsts_sublist [] _).subset (List.mem_of_mem_take hr)
  obtain ⟨hr, hle⟩ := List.mem_filter.mp hmem
  exact ⟨r, hr, by simpa using hle, rfl⟩

/-- A client gets nothing else than what it is sent. -/
theorem collect_subset {ask : ℕ → List (ι × ℕ)} {fuel : ℕ} {result : List ι}
    (h : collect ask fuel received cursor = some result) {i : ι} (hi : i ∈ result) :
    i ∈ received ∨ ∃ cursor', i ∈ (ask cursor').map (·.1) := by
  induction fuel generalizing received cursor with
  | zero => cases h
  | succ fuel ih =>
    rw [collect] at h
    split at h
    · next last j more _ hnew =>
      rcases ih h with hi | hi
      · rcases List.mem_append.mp hi with hi | hi
        · exact .inl hi
        · exact .inr ⟨cursor, (List.mem_filter.mp (hnew ▸ hi)).1⟩
      · exact .inr hi
    · obtain rfl := Option.some.inj h
      exact .inl hi

/-- More fuel changes nothing. -/
theorem collect_mono {ask : ℕ → List (ι × ℕ)} {fuel : ℕ} {result : List ι}
    (h : collect ask fuel received cursor = some result) (more : ℕ) :
    collect ask (fuel + more) received cursor = some result := by
  induction fuel generalizing received cursor with
  | zero => cases h
  | succ fuel ih =>
    rw [Nat.succ_add, collect]
    rw [collect] at h
    split at h
    · exact ih h
    · exact h

/-- Everything earlier than the last row of a page is on the page or was there before. -/
theorem askRows_earlier (hsorted : rows.Pairwise (time · ≤ time ·)) {last : ι × ℕ}
    (hlast : (askRows id time limit rows cursor).getLast? = some last) {x : ρ} (hx : x ∈ rows)
    (hfrom : cursor ≤ time x) (hearlier : time x < last.2) :
    id x ∈ (askRows id time limit rows cursor).map (·.1) := by
  rw [askRows, List.getLast?_map, Option.map_eq_some_iff] at hlast
  obtain ⟨r, hr, rfl⟩ := hlast
  obtain ⟨before, hpage⟩ := List.getLast?_eq_some_iff.mp hr
  have hfirsts : firsts id [] (rows.filter (cursor ≤ time ·)) =
      before ++ r :: (firsts id [] (rows.filter (cursor ≤ time ·))).drop limit := by
    conv_lhs => rw [← List.take_append_drop limit (firsts id [] _)]
    rw [show (firsts id [] (rows.filter (cursor ≤ time ·))).take limit = before ++ [r] from hpage]
    simp
  have hin : x ∈ rows.filter (cursor ≤ time ·) := List.mem_filter.mpr ⟨hx, by simpa using hfrom⟩
  rcases shown_before (hsorted.filter _) hfirsts hin hearlier with hseen | hbefore
  · exact absurd hseen List.not_mem_nil
  · rw [askRows_ids, hpage, List.map_append]
    exact List.mem_append_left _ hbefore

theorem askRows_sorted (limit cursor : ℕ) (hsorted : rows.Pairwise (time · ≤ time ·)) :
    (askRows id time limit rows cursor).Pairwise (·.2 ≤ ·.2) := by
  refine List.pairwise_map.mpr ?_
  exact (hsorted.filter _).sublist ((List.take_sublist _ _).trans (firsts_sublist _ _))

theorem time_le_last (hsorted : rows.Pairwise (time · ≤ time ·)) {last item : ι × ℕ}
    (hlast : (askRows id time limit rows cursor).getLast? = some last)
    (hitem : item ∈ askRows id time limit rows cursor) : item.2 ≤ last.2 := by
  obtain ⟨before, hpage⟩ := List.getLast?_eq_some_iff.mp hlast
  have hpairs : (askRows id time limit rows cursor).Pairwise (·.2 ≤ ·.2) :=
    askRows_sorted limit cursor hsorted
  rw [hpage] at hitem hpairs
  rcases List.mem_append.mp hitem with hbefore | hone
  · exact (List.pairwise_append.mp hpairs).2.2 item hbefore last (by simp)
  · rw [List.mem_singleton.mp hone]

/-- A page that brings something new takes the client on. -/
theorem Continues.next (hsorted : rows.Pairwise (time · ≤ time ·))
    (h : Continues id time rows received cursor) {last : ι × ℕ}
    (hlast : (askRows id time limit rows cursor).getLast? = some last) :
    Continues id time rows (received ++
      ((askRows id time limit rows cursor).map (·.1)).filter (· ∉ received)) last.2 := by
  have hmem : last ∈ askRows id time limit rows cursor := List.mem_of_getLast? hlast
  obtain ⟨r, hr, hfrom, rfl⟩ := askRows_row hmem
  have hhas : ∀ i ∈ (askRows id time limit rows cursor).map (·.1), i ∈ received ++
      ((askRows id time limit rows cursor).map (·.1)).filter (· ∉ received) := by
    intro i hi
    by_cases hin : i ∈ received
    · exact List.mem_append_left _ hin
    · exact List.mem_append_right _ (List.mem_filter.mpr ⟨hi, by simpa using hin⟩)
  refine ⟨?_, fun x hx hlt => ?_, fun i hi => ?_, .inr ⟨r, hr, hhas _ ?_, rfl⟩⟩
  · refine h.nodup.append ?_ fun i hi hnew => ?_
    · rw [askRows_ids]
      exact (nodup_page limit _).filter _
    · exact absurd hi (by simpa using (List.mem_filter.mp hnew).2)
  · by_cases hfromx : cursor ≤ time x
    · exact hhas _ (askRows_earlier hsorted hlast hx hfromx hlt)
    · exact List.mem_append_left _ (h.earlier x hx (by omega))
  · rcases List.mem_append.mp hi with hi | hi
    · obtain ⟨x, hx, hid, hle⟩ := h.stored i hi
      exact ⟨x, hx, hid, hle.trans hfrom⟩
    · obtain ⟨item, hitem, rfl⟩ := List.mem_map.mp (List.mem_filter.mp hi).1
      obtain ⟨x, hx, -, hx'⟩ := askRows_row hitem
      refine ⟨x, hx, by rw [hx'], ?_⟩
      simpa [hx'] using time_le_last hsorted hlast hitem
  · exact List.mem_map_of_mem hmem

theorem collect_stop {ask : ℕ → List (ι × ℕ)} (h : ∀ i ∈ (ask cursor).map (·.1), i ∈ received)
    (fuel : ℕ) : collect ask (fuel + 1) received cursor = some received := by
  have hnew : ((ask cursor).map (·.1)).filter (· ∉ received) = [] :=
    List.filter_eq_nil_iff.mpr fun i hi => by simpa using h i hi
  rw [collect, hnew]
  cases (ask cursor).getLast? <;> rfl

theorem collect_more {ask : ℕ → List (ι × ℕ)} {i : ι} (hi : i ∈ (ask cursor).map (·.1))
    (hnew : i ∉ received) : ∃ last, (ask cursor).getLast? = some last ∧ ∀ fuel,
      collect ask (fuel + 1) received cursor =
        collect ask fuel (received ++ ((ask cursor).map (·.1)).filter (· ∉ received)) last.2 := by
  cases hlast : (ask cursor).getLast? with
  | none => simp [List.getLast?_eq_none_iff.mp hlast] at hi
  | some last =>
    refine ⟨last, rfl, fun fuel => ?_⟩
    have hmem : i ∈ ((ask cursor).map (·.1)).filter (· ∉ received) :=
      List.mem_filter.mpr ⟨hi, by simpa using hnew⟩
    obtain ⟨j, more, hcons⟩ := List.exists_cons_of_ne_nil (List.ne_nil_of_mem hmem)
    rw [collect, hlast, hcons]

/-- Where a page from the cursor brings nothing new, nothing is left. -/
theorem Continues.complete (hlimit : 0 < limit)
    (hpassable : ∀ r ∈ rows, Passable id time limit rows (time r))
    (h : Continues id time rows received cursor)
    (hold : ∀ i ∈ (askRows id time limit rows cursor).map (·.1), i ∈ received) :
    ∀ i ∈ rows.map id, i ∈ received := by
  rcases h.last with ⟨rfl, rfl⟩ | ⟨r, hr, -, rfl⟩
  · intro i hi
    have hempty : askRows id time limit rows 0 = [] :=
      List.map_eq_nil_iff.mp (List.eq_nil_iff_forall_not_mem.mpr fun j hj => by simpa using hold j hj)
    cases rows with
    | nil => simp at hi
    | cons r rows =>
      have hpage : (page id limit ((r :: rows).filter (0 ≤ time ·))).length = 0 := by
        simpa [askRows] using hempty
      obtain ⟨limit, rfl⟩ := Nat.exists_eq_succ_of_ne_zero hlimit.ne'
      simp [page, firsts] at hpage
  · intro i hi
    by_cases hearlier : ∃ x ∈ rows, id x = i ∧ time x < time r
    · obtain ⟨x, hx, rfl, hlt⟩ := hearlier
      exact h.earlier x hx hlt
    · have hfrom : ∀ x ∈ rows, id x = i → time r ≤ time x := fun x hx hid =>
        not_lt.mp fun hlt => hearlier ⟨x, hx, hid, hlt⟩
      rcases hpassable r hr with hall | ⟨j, hj, hlater, hahead⟩
      · obtain ⟨x, hx, hid⟩ := List.mem_map.mp hi
        exact hold i (mem_askRows.mpr ⟨⟨x, hx, hfrom x hx hid, hid⟩, hall i hi hfrom⟩)
      · obtain ⟨x, hx, hid⟩ := List.mem_map.mp hj
        have hin := hold j (mem_askRows.mpr ⟨⟨x, hx, (hlater x hx hid).le, hid⟩, hahead⟩)
        obtain ⟨y, hy, hid', hle⟩ := h.stored j hin
        have hlt := hlater y hy hid'
        omega

/-- The messages that a client still lacks. -/
def missing (id : ρ → ι) (rows : List ρ) (received : List ι) : Finset ι :=
  (rows.map id).toFinset.filter (· ∉ received)

theorem completes_of_passable (hsorted : rows.Pairwise (time · ≤ time ·)) (hlimit : 0 < limit)
    (hpassable : ∀ r ∈ rows, Passable id time limit rows (time r))
    (h : Continues id time rows received cursor) :
    Completes (askRows id time limit rows) (rows.map id) received cursor := by
  have hfrom : ∀ fuel received cursor, Continues id time rows received cursor →
      (missing id rows received).card < fuel → ∃ result,
        collect (askRows id time limit rows) fuel received cursor = some result ∧
          result.Nodup ∧ ∀ i, i ∈ result ↔ i ∈ rows.map id := by
    intro fuel
    induction fuel with
    | zero => exact fun _ _ _ hlt => absurd hlt (by omega)
    | succ fuel ih =>
      intro received cursor h hlt
      by_cases hold : ∀ i ∈ (askRows id time limit rows cursor).map (·.1), i ∈ received
      · refine ⟨received, collect_stop hold fuel, h.nodup, fun i => ⟨fun hi => ?_, ?_⟩⟩
        · obtain ⟨r, hr, rfl, -⟩ := h.stored i hi
          exact List.mem_map_of_mem hr
        · exact h.complete hlimit hpassable hold i
      · push Not at hold
        obtain ⟨i, hi, hnew⟩ := hold
        obtain ⟨last, hlast, hmore⟩ := collect_more hi hnew
        rw [hmore]
        refine ih _ _ (h.next hsorted hlast) (lt_of_lt_of_le (Finset.card_lt_card ?_)
          (Nat.lt_succ_iff.mp hlt))
        obtain ⟨⟨r, hr, -, rfl⟩, -⟩ := mem_askRows.mp hi
        refine Finset.ssubset_iff_of_subset (fun j hj => ?_) |>.mpr ⟨id r, ?_, fun hin => ?_⟩
        · simp only [missing, Finset.mem_filter, List.mem_append, not_or] at hj ⊢
          exact ⟨hj.1, hj.2.1⟩
        · exact Finset.mem_filter.mpr ⟨by simpa using ⟨r, hr, rfl⟩, hnew⟩
        · refine (Finset.mem_filter.mp hin).2 (List.mem_append_right _ ?_)
          exact List.mem_filter.mpr ⟨hi, by simpa using hnew⟩
  refine ⟨(missing id rows received).card + 1, fun fuel hfuel => ?_⟩
  exact hfrom fuel received cursor h (by omega)

/-- At a time where no page is passable, a client with all that is earlier and with the page itself
stops and lacks something. -/
theorem passable_of_completes (hsorted : rows.Pairwise (time · ≤ time ·)) (hlimit : 0 < limit)
    (h : ∀ received cursor, Continues id time rows received cursor →
      Completes (askRows id time limit rows) (rows.map id) received cursor)
    {r : ρ} (hr : r ∈ rows) : Passable id time limit rows (time r) := by
  by_contra hstuck
  obtain ⟨hall, hlater⟩ := not_or.mp hstuck
  push Not at hall hlater
  obtain ⟨i, hi, hfrom, hahead⟩ := hall
  let ids := (askRows id time limit rows (time r)).map (·.1)
  let received := (((rows.filter (time · < time r)).map id) ++ ids).dedup
  have hmem : ∀ j, j ∈ received ↔ (∃ x ∈ rows, time x < time r ∧ id x = j) ∨ j ∈ ids := by
    intro j
    simp [received, and_assoc]
  have hfirst : ∃ x ∈ rows, id x ∈ received ∧ time x = time r := by
    have hin : r ∈ rows.filter (time r ≤ time ·) := List.mem_filter.mpr ⟨hr, by simp⟩
    obtain ⟨x, more, hcons⟩ := List.exists_cons_of_ne_nil (List.ne_nil_of_mem hin)
    have hx : x ∈ rows.filter (time r ≤ time ·) := by simp [hcons]
    obtain ⟨hx, hle⟩ := List.mem_filter.mp hx
    have hsorted' := hsorted.filter (time r ≤ time ·)
    rw [hcons] at hin hsorted'
    have hle' : time x ≤ time r := by
      rcases List.mem_cons.mp hin with rfl | hin
      · exact le_rfl
      · exact (List.pairwise_cons.mp hsorted').1 r hin
    refine ⟨x, hx, (hmem _).mpr (.inr (mem_askRows.mpr ⟨⟨x, hx, by simpa using hle, rfl⟩, ?_⟩)),
      le_antisymm hle' (by simpa using hle)⟩
    rw [hcons, ahead, List.takeWhile_cons_of_neg (by simp)]
    simpa using hlimit
  have hcontinues : Continues id time rows received (time r) := by
    refine ⟨List.nodup_dedup _, fun x hx hlt => (hmem _).mpr (.inl ⟨x, hx, hlt, rfl⟩), ?_,
      .inr hfirst⟩
    intro j hj
    rcases (hmem j).mp hj with ⟨x, hx, hlt, rfl⟩ | hj
    · exact ⟨x, hx, rfl, hlt.le⟩
    · obtain ⟨⟨x, hx, -, hid⟩, hfew⟩ := mem_askRows.mp hj
      by_contra hnone
      push Not at hnone
      have hmany := hlater j (List.mem_map.mpr ⟨x, hx, hid⟩) fun y hy hid' => hnone y hy hid'
      omega
  obtain ⟨enough, hcompletes⟩ := h received (time r) hcontinues
  obtain ⟨result, hresult, -, hcovers⟩ := hcompletes (enough + 1) (by omega)
  rw [collect_stop (fun j hj => (hmem j).mpr (.inr hj)) enough] at hresult
  obtain rfl := Option.some.inj hresult
  rcases (hmem i).mp ((hcovers i).mpr hi) with ⟨x, hx, hlt, hid⟩ | hin
  · have hle := hfrom x hx hid
    omega
  · have hfew := (mem_askRows.mp hin).2
    omega

/-- Every client that goes on ends with every message exactly where each time is passable. -/
theorem completes_iff (hsorted : rows.Pairwise (time · ≤ time ·)) (hlimit : 0 < limit) :
    (∀ received cursor, Continues id time rows received cursor →
      Completes (askRows id time limit rows) (rows.map id) received cursor) ↔
    ∀ r ∈ rows, Passable id time limit rows (time r) :=
  ⟨fun h _ hr => passable_of_completes hsorted hlimit h hr,
    fun h _ _ hcontinues => completes_of_passable hsorted hlimit h hcontinues⟩

end CursorPaging
