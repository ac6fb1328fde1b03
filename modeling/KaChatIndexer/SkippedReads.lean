import KaChatIndexer.MarkedReads

/-!
# Paging over rows that do not show

A page is cut first, and the rows that show nothing are dropped from it afterwards; the next page starts
behind the last row that was shown. A page of such rows alone names no position to go on from, so all is
read exactly when no run of hidden rows is as long as a page.
-/
namespace SkippedReads
open PagedReads MarkedReads

variable {ρ α κ ε : Type*} [LinearOrder κ] (key : ρ → κ) (item : ρ → Option α)

/-- What a page of rows shows, and the key of the last row that does; without one the client starts
again. -/
def skipAsk (len : ℕ) (order : ℕ → List ρ → List ρ) (rows : List ρ) (n : ℕ) (s : Option κ) :
    Except ε (Page (Option κ) α) :=
  let answer := order n (behind key rows s)
  .ok ⟨(answer.take len).filterMap item, if len < answer.length then
    some (((answer.take len).filter fun r => (item r).isSome).getLast?.map key) else none⟩

/-- Rows of the length of a page that show nothing, before another row. -/
def HiddenPage (shows : ρ → Bool) (len : ℕ) (l : List ρ) : Prop :=
  ∃ p, p + len < l.length ∧ ∀ r ∈ (l.drop p).take len, shows r = false

theorem HiddenPage.congr {shows shows' : ρ → Bool} {len : ℕ} {l : List ρ}
    (h : ∀ r ∈ l, shows r = shows' r) : HiddenPage shows len l ↔ HiddenPage shows' len l := by
  have hmem {p : ℕ} {r : ρ} (hr : r ∈ (l.drop p).take len) : shows r = shows' r :=
    h r (List.mem_of_mem_drop (List.mem_of_mem_take hr))
  constructor
  · rintro ⟨p, hp, hhidden⟩
    exact ⟨p, hp, fun r hr => (hmem hr).symm.trans (hhidden r hr)⟩
  · rintro ⟨p, hp, hhidden⟩
    exact ⟨p, hp, fun r hr => (hmem hr).trans (hhidden r hr)⟩

variable {key item}
variable {len : ℕ} {order : ℕ → List ρ → List ρ} {rows l : List ρ}

/-- The last row that shows something. -/
theorem last_shown {x : List ρ} (h : ∃ r ∈ x, item r ≠ none) :
    ∃ a r b, x = a ++ r :: b ∧ item r ≠ none ∧ ∀ y ∈ b, item y = none := by
  induction x with
  | nil => simp at h
  | cons y x ih =>
    by_cases hlater : ∃ r ∈ x, item r ≠ none
    · obtain ⟨a, r, b, rfl, hr, hb⟩ := ih hlater
      exact ⟨y :: a, r, b, rfl, hr, hb⟩
    · obtain ⟨r, hr, hshown⟩ := h
      rcases List.mem_cons.mp hr with rfl | hr
      · exact ⟨[], r, x, rfl, hshown, fun z hz => by_contra fun hne => hlater ⟨z, hz, hne⟩⟩
      · exact absurd ⟨r, hr, hshown⟩ hlater

theorem hidden_filter {b : List ρ} (h : ∀ y ∈ b, item y = none) :
    (b.filter fun r => (item r).isSome) = [] ∧ b.filterMap item = [] := by
  refine ⟨List.filter_eq_nil_iff.mpr fun y hy => ?_, List.filterMap_eq_nil_iff.mpr h⟩
  simp [h y hy]

/-- What the last row shows comes last. -/
theorem last_item (x : List ρ) :
    (x.filterMap item).getLast? = (x.filter fun r => (item r).isSome).getLast?.bind item := by
  by_cases h : ∃ r ∈ x, item r ≠ none
  · obtain ⟨a, r, b, rfl, hr, hb⟩ := last_shown h
    obtain ⟨shown, hshown⟩ := Option.ne_none_iff_exists'.mp hr
    rw [List.filter_append, List.filter_cons, if_pos (Option.isSome_iff_ne_none.mpr hr),
      (hidden_filter hb).1, List.getLast?_concat, List.filterMap_append, List.filterMap_cons, hshown,
      (hidden_filter hb).2]
    exact List.getLast?_concat.trans hshown.symm
  · have hnone : ∀ r ∈ x, item r = none := fun r hr => by_contra fun hne => h ⟨r, hr, hne⟩
    rw [(hidden_filter hnone).1, (hidden_filter hnone).2]
    rfl

/-- The items of the rows that show something. -/
theorem map_shown (x : List ρ) :
    (x.filterMap item).map some = (x.filter fun r => (item r).isSome).map item := by
  induction x with
  | nil => rfl
  | cons r x ih =>
    cases h : item r with
    | none => rw [List.filterMap_cons, h, List.filter_cons, if_neg (by simp [h]), ih]
    | some a =>
      rw [List.filterMap_cons, h, List.filter_cons, if_pos (by simp [h]), List.map_cons, List.map_cons,
        h, ih]

theorem skip_complete (horder : Answers key order) (hkeys : (rows.map key).Nodup)
    (hl : Ordered key rows l) (hfull : ¬ HiddenPage (fun r => (item r).isSome) len l) {fuel n q : ℕ} {s : Option κ}
    (hfuel : l.length < fuel + q) (hle : q ≤ l.length) (hs : (behind key rows s).Perm (l.drop q)) :
    ∃ pages, walk (skipAsk (ε := ε) key item len order rows) fuel n s = some (pages, none) ∧
      pages.flatten = (l.drop q).filterMap item := by
  induction fuel generalizing n q s with
  | zero => omega
  | succ fuel ih =>
    have hanswer := answer_drop (n := n) horder hkeys hl hs
    have hlength : (l.drop q).length = l.length - q := List.length_drop
    by_cases hlong : len < (l.drop q).length
    · -- the page shows something, and goes on from the last row that does
      have hshows : ∃ r ∈ (l.drop q).take len, item r ≠ none := by
        by_contra hnone
        refine hfull ⟨q, by omega, fun r hr => Option.isSome_eq_false_iff.mpr ?_⟩
        exact Option.isNone_iff_eq_none.mpr (by_contra fun hne => hnone ⟨r, hr, hne⟩)
      obtain ⟨a, r, b, hsplit, hr, hb⟩ := last_shown hshows
      have hshort : a.length + (b.length + 1) = len := by
        have hcut := congrArg List.length hsplit
        rw [List.length_take, List.length_append, List.length_cons] at hcut
        omega
      have hplace : l[q + a.length]? = some r := by
        have hget := congrArg (·[a.length]?) hsplit
        simp only [List.getElem?_append_right (le_refl a.length), Nat.sub_self] at hget
        rwa [List.getElem?_take_of_lt (by omega), List.getElem?_drop] at hget
      obtain ⟨r', hr'⟩ : ∃ r', l[q + a.length + 1]? = some r' :=
        ⟨_, List.getElem?_eq_getElem (by omega)⟩
      have hfinds : Finds key key (fun k x => k < key x) rows r := fun x _ => decide_eq_true_iff
      have hnext := ahead_found hkeys hl hplace hr' hfinds
      obtain ⟨pages, hpages, hflat⟩ := ih (n := n + 1) (s := some (key r)) (q := q + a.length + 1)
        (by omega) (by omega) hnext
      have hlast : ((l.drop q).take len).filter (fun r => (item r).isSome) =
          a.filter (fun r => (item r).isSome) ++ [r] := by
        rw [hsplit, List.filter_append, List.filter_cons, if_pos (Option.isSome_iff_ne_none.mpr hr),
          (hidden_filter hb).1]
      have hask : skipAsk (ε := ε) key item len order rows n s =
          .ok ⟨((l.drop q).take len).filterMap item, some (some (key r))⟩ := by
        rw [skipAsk, hanswer, if_pos hlong, hlast, List.getLast?_concat]
        rfl
      refine ⟨_, (walk_next hask fuel).trans (by rw [hpages]; rfl), ?_⟩
      have hdrop : l.drop q = (a ++ [r]) ++ l.drop (q + a.length + 1) := by
        have hall := List.take_append_drop (a.length + 1) (l.drop q)
        have htake : (l.drop q).take (a.length + 1) = a ++ [r] := by
          have hcut := congrArg (List.take (a.length + 1)) hsplit
          rw [List.take_take, Nat.min_eq_left (by omega)] at hcut
          rw [hcut, List.take_length_add_append]
          rfl
        rw [htake, List.drop_drop] at hall
        exact hall.symm
      have hrest : b.filterMap item = [] := (hidden_filter hb).2
      rw [List.flatten_cons, hflat, hsplit, hdrop, List.filterMap_append, List.filterMap_append,
        List.filterMap_append, List.append_cancel_right_eq, List.append_cancel_left_eq,
        List.filterMap_cons, List.filterMap_cons, hrest]
      rfl
    · have hask : skipAsk (ε := ε) key item len order rows n s =
          .ok ⟨(l.drop q).filterMap item, none⟩ := by
        rw [skipAsk, hanswer, if_neg hlong, List.take_of_length_le (by omega)]
      refine ⟨_, walk_last hask fuel, ?_⟩
      simp

/-- Without a hidden page the client reads what all rows show. -/
theorem skip_reads (horder : Answers key order) (hkeys : (rows.map key).Nodup)
    (hl : Ordered key rows l) (hfull : ¬ HiddenPage (fun r => (item r).isSome) len l) :
    ∃ pages, Reads (skipAsk (ε := ε) key item len order rows) none pages none ∧
      pages.flatten = l.filterMap item := by
  have hstart : (behind key rows none).Perm (l.drop 0) := by
    have hall : behind key rows none = rows := List.filter_eq_self.mpr fun _ _ => rfl
    rw [hall]
    exact hl.perm.symm
  obtain ⟨pages, hpages, hflat⟩ := skip_complete (ε := ε) (n := 0) horder hkeys hl hfull
    (Nat.lt_succ_self l.length) (Nat.zero_le _) hstart
  exact ⟨pages, reads_of_walk hpages, hflat⟩

/-! ## The rows of an interval -/

/-- Rows that are picked by their place stand together. -/
def Convex (key : ρ → κ) (among : ρ → Bool) : Prop :=
  ∀ a b c, key a ≤ key b → key b ≤ key c → among a = true → among c = true → among b = true

theorem among_takeWhile {among : ρ → Bool} (hconvex : Convex key among) {x : ρ} {xs : List ρ}
    (hsorted : (x :: xs).Pairwise fun a b => key a ≤ key b) (hx : among x = true) :
    xs.filter among = xs.takeWhile among := by
  induction xs with
  | nil => rfl
  | cons y ys ih =>
    obtain ⟨hfirst, hrest⟩ := List.pairwise_cons.mp hsorted
    by_cases hy : among y = true
    · rw [List.filter_cons_of_pos hy, List.takeWhile_cons_of_pos hy]
      refine congrArg (y :: ·) (ih (List.pairwise_cons.mpr ⟨?_, (List.pairwise_cons.mp hrest).2⟩))
      exact fun z hz => hfirst z (List.mem_cons_of_mem y hz)
    · rw [List.filter_cons_of_neg hy, List.takeWhile_cons_of_neg hy, List.filter_eq_nil_iff]
      intro z hz hamong
      exact hy (hconvex x y z (hfirst y List.mem_cons_self)
        ((List.pairwise_cons.mp hrest).1 z hz) hx hamong)

theorem among_infix {among : ρ → Bool} (hconvex : Convex key among) {l : List ρ}
    (hsorted : l.Pairwise fun a b => key a ≤ key b) : ∃ p k, l.filter among = (l.drop p).take k := by
  induction l with
  | nil => exact ⟨0, 0, rfl⟩
  | cons x xs ih =>
    by_cases hx : among x = true
    · rw [List.filter_cons_of_pos hx, among_takeWhile hconvex hsorted hx]
      have hprefix : xs.takeWhile among <+: xs := List.takeWhile_prefix among
      refine ⟨0, (xs.takeWhile among).length + 1, ?_⟩
      rw [List.drop_zero, List.take_succ_cons, ← List.prefix_iff_eq_take.mp hprefix]
    · obtain ⟨p, k, hcut⟩ := ih (List.pairwise_cons.mp hsorted).2
      refine ⟨p + 1, k, ?_⟩
      rw [List.filter_cons_of_neg hx, hcut, List.drop_succ_cons]

/-- The first rows of an interval stand as they do among all rows, and so does what follows. -/
theorem hidden_among {shows among : ρ → Bool} (hconvex : Convex key among) {l : List ρ}
    (hsorted : l.Pairwise fun a b => key a ≤ key b) (h : HiddenPage shows len (l.filter among)) :
    HiddenPage shows len l := by
  obtain ⟨p, k, hcut⟩ := among_infix hconvex hsorted
  obtain ⟨i, hlong, hhidden⟩ := h
  rw [hcut] at hlong hhidden
  rw [List.length_take, List.length_drop] at hlong
  refine ⟨p + i, by omega, fun r hr => hhidden r ?_⟩
  rw [List.drop_take, List.take_take, List.drop_drop, Nat.min_eq_left (by omega)]
  exact hr

/-! ## How many are due -/

section
variable {among due : ρ → Bool}

/-- Of the first rows of an order every one has fewer before it. -/
theorem take_before {k : ℕ} {r : ρ} (hl : Ordered key rows l) (hr : r ∈ l.take k) :
    (rows.filter fun x => key x < key r).length < k := by
  obtain ⟨i, hi, hget⟩ := List.mem_iff_getElem.mp hr
  rw [List.length_take] at hi
  rw [List.getElem_take] at hget
  have hbehind : (l.drop i).filter (fun x => key x < key r) = [] := by
    refine List.filter_eq_nil_iff.mpr fun y hy => ?_
    have hsorted := (hl.drop i).sorted
    rw [List.drop_eq_getElem_cons (by omega), hget] at hy hsorted
    rw [decide_eq_true_iff, not_lt]
    rcases List.mem_cons.mp hy with rfl | hy
    · exact le_rfl
    · exact (List.pairwise_cons.mp hsorted).1 y hy
  have hsame : (rows.filter fun x => key x < key r).length =
      (l.filter fun x => key x < key r).length := ((hl.perm.filter _).length_eq).symm
  rw [hsame, ← List.take_append_drop i l, List.filter_append, hbehind, List.append_nil]
  refine (List.length_filter_le _ _).trans_lt ?_
  rw [List.length_take]
  omega

theorem from_count (k : κ) (rows : List ρ) : (rows.filter fun x => k ≤ key x).length =
    (rows.filter fun x => k < key x).length + (rows.map key).count k := by
  induction rows with
  | nil => rfl
  | cons x rows ih =>
    rw [List.filter_cons, List.filter_cons, List.map_cons, List.count_cons]
    rcases lt_trichotomy k (key x) with h | h | h
    · simp [h, h.le, h.ne', ih]
      omega
    · subst h
      simp [ih, Nat.add_assoc]
    · simp [h.not_ge, h.not_gt, h.ne, ih]

/-- With the row of a key itself there is at most one more. -/
theorem from_le (k : κ) (hkeys : (rows.map key).Nodup) : (rows.filter fun x => k ≤ key x).length ≤
    (rows.filter fun x => k < key x).length + 1 := by
  rw [from_count]
  exact Nat.add_le_add_left (List.nodup_iff_count_le_one.mp hkeys k) _

/-- Up to a bound as many are due as there are, where the first rows are due. -/
theorem bounded_count {k : ℕ} (hl : Ordered key rows l) (hdue : ∀ r ∈ l.take k, due r = true) :
    min k (rows.filter due).length = min k rows.length := by
  have hfirst : (l.take k).filter due = l.take k := List.filter_eq_self.mpr hdue
  have hsame : (rows.filter due).length = (l.filter due).length := ((hl.perm.filter _).length_eq).symm
  have hle : (l.take k).length ≤ (l.filter due).length := by
    rw [← hfirst]
    exact ((List.take_sublist k l).filter due).length_le
  have hge : (l.filter due).length ≤ l.length := List.length_filter_le _ _
  have hlength := hl.length
  rw [List.length_take] at hle
  omega

end

end SkippedReads
