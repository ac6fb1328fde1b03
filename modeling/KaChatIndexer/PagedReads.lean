import Mathlib.Data.List.Sort

/-!
# Paging through ordered rows

A client reads rows page by page and gives back what the page before names as the next position. A
database answers each query in the order of the rows' keys, rows of one key in whatever order it
likes. A position is the key of the last row (the next page holds what is after it) or the number of
rows that came before. Either way every row comes once exactly when no page ends between two rows of
one key.
-/
namespace PagedReads

/-- The rows of a page, and the position to go on from where more rows remain. -/
structure Page (σ ρ : Type*) where
  rows : List ρ
  next : Option σ

/-- The first rows of an answer; the rows of one more page may follow. -/
def cut {σ ρ : Type*} (len : ℕ) (next : List ρ → Option σ) (answer : List ρ) : Page σ ρ :=
  ⟨answer.take len, if len < answer.length then next (answer.take len) else none⟩

theorem cut_map {σ τ ρ : Type*} (len : ℕ) (next : List ρ → Option σ) (f : σ → τ) (answer : List ρ) :
    (⟨(cut len next answer).rows, (cut len next answer).next.map f⟩ : Page τ ρ) =
      cut len (fun page => (next page).map f) answer := by
  unfold cut
  split <;> rfl

section
variable {ρ σ ε : Type*} (ask : ℕ → σ → Except ε (Page σ ρ))

/-- The pages from a position on, each asked by a query of its own, and the error that ends them. -/
def walk : ℕ → ℕ → σ → Option (List (List ρ) × Option ε)
  | 0, _, _ => none
  | fuel + 1, n, s =>
    match ask n s with
    | .error e => some ([], some e)
    | .ok page =>
      match page.next with
      | none => some ([page.rows], none)
      | some s' => (walk fuel (n + 1) s').map fun rest => (page.rows :: rest.1, rest.2)

variable {ask}

theorem walk_error {n : ℕ} {s : σ} {e : ε} (h : ask n s = .error e) (fuel : ℕ) :
    walk ask (fuel + 1) n s = some ([], some e) := by
  rw [walk, h]

theorem walk_last {n : ℕ} {s : σ} {rows : List ρ} (h : ask n s = .ok ⟨rows, none⟩) (fuel : ℕ) :
    walk ask (fuel + 1) n s = some ([rows], none) := by
  rw [walk, h]

theorem walk_next {n : ℕ} {s s' : σ} {rows : List ρ} (h : ask n s = .ok ⟨rows, some s'⟩) (fuel : ℕ) :
    walk ask (fuel + 1) n s =
      (walk ask fuel (n + 1) s').map fun rest => (rows :: rest.1, rest.2) := by
  rw [walk, h]

/-- Both answer alike, with next positions that stand for one another. -/
def Alike {τ : Type*} (stands : σ → τ → Prop) : Except ε (Page σ ρ) → Except ε (Page τ ρ) → Prop
  | .error e, .error e' => e = e'
  | .ok ⟨rows, none⟩, .ok ⟨rows', none⟩ => rows = rows'
  | .ok ⟨rows, some s⟩, .ok ⟨rows', some t⟩ => rows = rows' ∧ stands s t
  | _, _ => False

theorem alike_cut {τ : Type*} {stands : σ → τ → Prop} {len : ℕ} {next : List ρ → Option σ}
    {next' : List ρ → Option τ} {answer : List ρ}
    (h : len < answer.length → ∃ s t, next (answer.take len) = some s ∧
      next' (answer.take len) = some t ∧ stands s t) :
    Alike (ε := ε) stands (.ok (cut len next answer)) (.ok (cut len next' answer)) := by
  unfold cut
  by_cases hlong : len < answer.length
  · obtain ⟨s, t, hs, ht, hst⟩ := h hlong
    rw [if_pos hlong, if_pos hlong, hs, ht]
    exact ⟨rfl, hst⟩
  · rw [if_neg hlong, if_neg hlong]
    exact (rfl : answer.take len = answer.take len)

/-- A client that holds its position in another form reads the same pages. -/
theorem walk_alike {τ : Type*} {ask' : ℕ → τ → Except ε (Page τ ρ)} {stands : σ → τ → Prop}
    (h : ∀ n s t, stands s t → Alike stands (ask n s) (ask' n t)) (fuel n : ℕ) {s : σ} {t : τ}
    (hst : stands s t) : walk ask' fuel n t = walk ask fuel n s := by
  induction fuel generalizing n s t with
  | zero => rfl
  | succ fuel ih =>
    have halike := h n s t hst
    rw [walk, walk]
    cases hask : ask n s with
    | error e =>
      cases hask' : ask' n t with
      | error e' =>
        rw [hask, hask'] at halike
        obtain rfl : e = e' := halike
        rfl
      | ok page' => simp [hask, hask', Alike] at halike
    | ok page =>
      obtain ⟨rows, next⟩ := page
      cases hask' : ask' n t with
      | error e' => cases next <;> simp [hask, hask', Alike] at halike
      | ok page' =>
        obtain ⟨rows', next'⟩ := page'
        rw [hask, hask'] at halike
        cases next with
        | none =>
          cases next' with
          | none =>
            obtain rfl : rows = rows' := halike
            rfl
          | some t' => exact absurd halike (by simp [Alike])
        | some s' =>
          cases next' with
          | none => exact absurd halike (by simp [Alike])
          | some t' =>
            obtain ⟨rfl, hnext⟩ : rows = rows' ∧ stands s' t' := halike
            simp only [ih (n + 1) hnext]

/-- More fuel changes nothing. -/
theorem walk_mono {fuel n : ℕ} {s : σ} {result : List (List ρ) × Option ε}
    (h : walk ask fuel n s = some result) (more : ℕ) : walk ask (fuel + more) n s = some result := by
  induction fuel generalizing n s result with
  | zero => cases h
  | succ fuel ih =>
    rw [Nat.succ_add, walk]
    rw [walk] at h
    cases hask : ask n s with
    | error e => rwa [hask] at h
    | ok page =>
      obtain ⟨rows, next⟩ := page
      rw [hask] at h
      cases next with
      | none => exact h
      | some s' =>
        obtain ⟨rest, hrest, rfl⟩ := Option.map_eq_some_iff.mp h
        simp [ih hrest]

/-- The walk from the start ends with these pages and this error. -/
def Reads (ask : ℕ → σ → Except ε (Page σ ρ)) (s : σ) (pages : List (List ρ)) (e : Option ε) : Prop :=
  ∃ enough, ∀ fuel ≥ enough, walk ask fuel 0 s = some (pages, e)

theorem reads_of_walk {fuel : ℕ} {s : σ} {pages : List (List ρ)} {e : Option ε}
    (h : walk ask fuel 0 s = some (pages, e)) : Reads ask s pages e :=
  ⟨fuel, fun more hmore => by
    obtain ⟨d, rfl⟩ := Nat.exists_eq_add_of_le hmore
    exact walk_mono h d⟩

theorem reads_alike {τ : Type*} {ask' : ℕ → τ → Except ε (Page τ ρ)} {stands : σ → τ → Prop}
    (h : ∀ n s t, stands s t → Alike stands (ask n s) (ask' n t)) {s : σ} {t : τ} (hst : stands s t)
    {pages : List (List ρ)} {e : Option ε} : Reads ask' t pages e ↔ Reads ask s pages e := by
  unfold Reads
  simp only [walk_alike h _ _ hst]

theorem Reads.unique {s : σ} {pages pages' : List (List ρ)} {e e' : Option ε}
    (h : Reads ask s pages e) (h' : Reads ask s pages' e') : pages = pages' ∧ e = e' := by
  obtain ⟨m, hm⟩ := h
  obtain ⟨m', hm'⟩ := h'
  have heq := (hm (max m m') (le_max_left ..)).symm.trans (hm' _ (le_max_right ..))
  exact Prod.mk.inj (Option.some.inj heq)

end

/-! ## Page ends -/

section
variable {κ : Type*}

/-- No page ends between two rows of one key. -/
def Uncut (len : ℕ) (keys : List κ) : Prop :=
  ∀ p, 0 < p → len ∣ p → p < keys.length → keys[p - 1]? ≠ keys[p]?

theorem uncut_short {len : ℕ} {keys : List κ} (h : keys.length ≤ len) : Uncut len keys := by
  intro p hp hdvd hlt
  have hle := Nat.le_of_dvd hp hdvd
  omega

theorem uncut_step {len : ℕ} {keys : List κ} (hlen : 0 < len) (hlong : len < keys.length) :
    Uncut len keys ↔ keys[len - 1]? ≠ keys[len]? ∧ Uncut len (keys.drop len) := by
  constructor
  · intro h
    refine ⟨h len hlen (Nat.dvd_refl len) hlong, fun p hp hdvd hlt => ?_⟩
    rw [List.length_drop] at hlt
    have hnext := h (len + p) (by omega) (Nat.dvd_add (Nat.dvd_refl len) hdvd) (by omega)
    rwa [List.getElem?_drop, List.getElem?_drop, ← Nat.add_sub_assoc hp]
  · rintro ⟨hfirst, hrest⟩ p hp hdvd hlt
    by_cases heq : p = len
    · exact heq ▸ hfirst
    · have hle := Nat.le_of_dvd hp hdvd
      have hnext := hrest (p - len) (by omega) (Nat.dvd_sub hdvd (Nat.dvd_refl len))
        (by rw [List.length_drop]; omega)
      rw [List.getElem?_drop, List.getElem?_drop] at hnext
      rwa [show len + (p - len - 1) = p - 1 by omega, show len + (p - len) = p by omega] at hnext

end

/-! ## Answers in the order of keys -/

section
variable {ρ κ : Type*} [LinearOrder κ] (key : ρ → κ)

/-- A list of the rows in the order of their keys. -/
structure Ordered (rows l : List ρ) : Prop where
  perm : l.Perm rows
  sorted : l.Pairwise fun a b => key a ≤ key b

/-- What a database may answer to each query. -/
def Answers (order : ℕ → List ρ → List ρ) : Prop := ∀ n rows, Ordered key rows (order n rows)

def sortedKeys (rows : List ρ) : List κ := (rows.map key).insertionSort (· ≤ ·)

/-- The pages hold every row once and in order, none is too long, and none is empty but that of no
rows. -/
structure Complete (len : ℕ) (rows : List ρ) (pages : List (List ρ)) : Prop where
  ordered : Ordered key rows pages.flatten
  short : ∀ page ∈ pages, page.length ≤ len
  more : ∀ page ∈ pages, page = [] → rows = []

variable {key}

theorem Ordered.keys {rows l : List ρ} (h : Ordered key rows l) : l.map key = sortedKeys key rows := by
  refine List.Perm.eq_of_pairwise' (List.pairwise_map.mpr h.sorted)
    (List.pairwise_insertionSort _ _) ?_
  exact (h.perm.map key).trans (List.perm_insertionSort _ _).symm

theorem Ordered.length {rows l : List ρ} (h : Ordered key rows l) : l.length = rows.length :=
  h.perm.length_eq

theorem sortedKeys_length (rows : List ρ) : (sortedKeys key rows).length = rows.length := by
  rw [sortedKeys, List.length_insertionSort, List.length_map]

theorem ordered_sort (rows : List ρ) :
    Ordered key rows (rows.insertionSort fun a b => key a ≤ key b) := by
  have : Std.Total fun a b : ρ => key a ≤ key b := ⟨fun a b => le_total (key a) (key b)⟩
  have : IsTrans ρ fun a b => key a ≤ key b := ⟨fun _ _ _ => le_trans⟩
  exact ⟨List.perm_insertionSort _ _, List.pairwise_insertionSort _ _⟩

theorem sortedKeys_perm {rows rows' : List ρ} (h : rows.Perm rows') :
    sortedKeys key rows = sortedKeys key rows' := by
  have hsort : Ordered key rows _ := ordered_sort rows
  exact hsort.keys.symm.trans (Ordered.keys ⟨hsort.perm.trans h, hsort.sorted⟩)

/-- Ordered rows before and ordered rows behind them are ordered together. -/
theorem Ordered.append {a b c d : List ρ} (h : Ordered key a c) (h' : Ordered key b d)
    (hle : ∀ x ∈ a, ∀ y ∈ b, key x ≤ key y) : Ordered key (a ++ b) (c ++ d) :=
  ⟨h.perm.append h'.perm, List.pairwise_append.mpr ⟨h.sorted, h'.sorted, fun x hx y hy =>
    hle x (h.perm.mem_iff.mp hx) y (h'.perm.mem_iff.mp hy)⟩⟩

theorem Ordered.take_le_drop {rows l : List ρ} (h : Ordered key rows l) (p : ℕ) :
    ∀ x ∈ l.take p, ∀ y ∈ l.drop p, key x ≤ key y := by
  have hsorted := h.sorted
  rw [← List.take_append_drop p l] at hsorted
  exact (List.pairwise_append.mp hsorted).2.2

theorem Ordered.drop {rows l : List ρ} (h : Ordered key rows l) (p : ℕ) :
    Ordered key (l.drop p) (l.drop p) := ⟨.refl _, h.sorted.sublist (List.drop_sublist p l)⟩

theorem Ordered.take {rows l : List ρ} (h : Ordered key rows l) (p : ℕ) :
    Ordered key (l.take p) (l.take p) := ⟨.refl _, h.sorted.sublist (List.take_sublist p l)⟩

/-- Where two neighbours differ, what is behind is what is after the first. -/
theorem Ordered.drop_eq_filter {rows l : List ρ} (h : Ordered key rows l) {p : ℕ} {r r' : ρ}
    (hr : l[p]? = some r) (hr' : l[p + 1]? = some r') (hne : key r ≠ key r') :
    l.drop (p + 1) = l.filter (key r < key ·) := by
  have hlast : l.take (p + 1) = l.take p ++ [r] := by
    rw [List.take_add_one, hr]
    rfl
  have hfirst : l.drop (p + 1) = r' :: l.drop (p + 2) := by
    obtain ⟨hlt, hget⟩ := List.getElem?_eq_some_iff.mp hr'
    rw [List.drop_eq_getElem_cons hlt, hget]
  have hrr' : key r < key r' := by
    refine lt_of_le_of_ne (h.take_le_drop (p + 1) r ?_ r' ?_) hne
    · simp [hlast]
    · simp [hfirst]
  have hbefore : (l.take (p + 1)).filter (key r < key ·) = [] := by
    rw [List.filter_eq_nil_iff]
    intro x hx
    have hsorted := (h.take (p + 1)).sorted
    rw [hlast] at hx hsorted
    rcases List.mem_append.mp hx with hx | hx
    · have hle := (List.pairwise_append.mp hsorted).2.2 x hx r (by simp)
      simpa using hle
    · simp [List.mem_singleton.mp hx]
  have hafter : (l.drop (p + 1)).filter (key r < key ·) = l.drop (p + 1) := by
    rw [List.filter_eq_self]
    intro x hx
    have hsorted := (h.drop (p + 1)).sorted
    rw [hfirst] at hx hsorted
    rcases List.mem_cons.mp hx with rfl | hx
    · simpa using hrr'
    · simpa using hrr'.trans_le ((List.pairwise_cons.mp hsorted).1 x hx)
  conv_rhs => rw [← List.take_append_drop (p + 1) l, List.filter_append, hbefore, hafter]
  rfl

theorem uncut_nodup {len : ℕ} {rows : List ρ} (h : (rows.map key).Nodup) :
    Uncut len (sortedKeys key rows) := by
  have hsorted := (List.perm_insertionSort (· ≤ ·) (rows.map key)).nodup_iff.mpr h
  intro p hp _ hlt heq
  rw [List.getElem?_eq_getElem (by omega), List.getElem?_eq_getElem hlt] at heq
  have hindex := (List.Nodup.getElem_inj_iff hsorted).mp (Option.some.inj heq)
  omega

/-- A full page in front of the pages of the other rows. -/
theorem Complete.cons {len : ℕ} {rows l : List ρ} {pages : List (List ρ)} (hlen : 0 < len)
    (hl : Ordered key rows l) (hlong : len < l.length) (h : Complete key len (l.drop len) pages) :
    Complete key len rows (l.take len :: pages) := by
  have hne : l.drop len ≠ [] := by simpa using hlong
  refine ⟨?_, ?_, ?_⟩
  · have happend := (hl.take len).append h.ordered (hl.take_le_drop len)
    rw [List.flatten_cons]
    exact ⟨by simpa using happend.perm.trans (by simpa using hl.perm), happend.sorted⟩
  · intro page hpage
    rcases List.mem_cons.mp hpage with rfl | hpage
    · exact List.length_take_le len l
    · exact h.short page hpage
  · intro page hpage hempty
    rcases List.mem_cons.mp hpage with rfl | hpage
    · have hlength := congrArg List.length hempty
      rw [List.length_take, List.length_nil] at hlength
      omega
    · exact absurd (h.more page hpage hempty) hne

/-! ## Going on from the last row -/

variable (key)

/-- The rows behind a position; before the first page there is none. -/
def after (s : Option κ) (r : ρ) : Bool := s.all (· < key r)

def behind (rows : List ρ) (s : Option κ) : List ρ := rows.filter (after key s)

/-- A page of the rows behind a key; the key of its last row is the next position. -/
def keysetAsk {ε : Type*} (len : ℕ) (order : ℕ → List ρ → List ρ) (rows : List ρ) (n : ℕ)
    (s : Option κ) : Except ε (Page (Option κ) ρ) :=
  .ok (cut len (fun page => page.getLast?.map fun r => some (key r)) (order n (behind key rows s)))

variable {key}
variable {ε : Type*} {len : ℕ} {order : ℕ → List ρ → List ρ} {rows : List ρ}

theorem keysetAsk_short {n : ℕ} {s : Option κ} (h : (order n (behind key rows s)).length ≤ len) :
    keysetAsk (ε := ε) key len order rows n s = .ok ⟨order n (behind key rows s), none⟩ := by
  rw [keysetAsk, cut, if_neg (by omega), List.take_of_length_le h]

theorem keysetAsk_long {n : ℕ} {s : Option κ} (hlen : 0 < len)
    (h : len < (order n (behind key rows s)).length) :
    ∃ r r', (order n (behind key rows s))[len - 1]? = some r ∧
      (order n (behind key rows s))[len]? = some r' ∧ keysetAsk (ε := ε) key len order rows n s =
        .ok ⟨(order n (behind key rows s)).take len, some (some (key r))⟩ := by
  refine ⟨_, _, List.getElem?_eq_getElem (by omega), List.getElem?_eq_getElem h, ?_⟩
  rw [keysetAsk, cut, if_pos h, List.getLast?_take, if_neg hlen.ne',
    List.getElem?_eq_getElem (by omega)]
  rfl

/-- What is behind the last row of a page is what is behind the page, where its key ends there. -/
theorem behind_next (horder : Answers key order) {n : ℕ} {s : Option κ} (hlen : 0 < len) {r r' : ρ}
    (hr : (order n (behind key rows s))[len - 1]? = some r)
    (hr' : (order n (behind key rows s))[len]? = some r') (hne : key r ≠ key r') :
    (behind key rows (some (key r))).Perm ((order n (behind key rows s)).drop len) := by
  have hordered := horder n (behind key rows s)
  have hdrop := hordered.drop_eq_filter (p := len - 1) hr (by rwa [Nat.sub_add_cancel hlen]) hne
  rw [Nat.sub_add_cancel hlen] at hdrop
  rw [hdrop]
  have hmem : r ∈ behind key rows s := hordered.perm.mem_iff.mp (List.mem_of_getElem? hr)
  have hafter : after key s r = true := (List.mem_filter.mp hmem).2
  have hfilter : behind key rows (some (key r)) = (behind key rows s).filter (key r < key ·) := by
    rw [behind, behind, List.filter_filter]
    refine List.filter_congr fun x hx => ?_
    cases s with
    | none => simp [after]
    | some k =>
      simp only [after, Option.all_some, decide_eq_true_eq] at hafter ⊢
      by_cases hlt : key r < key x
      · simp [hlt, hafter.trans hlt]
      · simp [hlt]
  rw [hfilter]
  exact (hordered.perm.filter _).symm

theorem keyset_complete (hlen : 0 < len) (horder : Answers key order) {fuel n : ℕ} {s : Option κ}
    (hfuel : (behind key rows s).length < fuel)
    (huncut : Uncut len (sortedKeys key (behind key rows s))) :
    ∃ pages, walk (keysetAsk (ε := ε) key len order rows) fuel n s = some (pages, none) ∧
      Complete key len (behind key rows s) pages := by
  induction fuel generalizing n s with
  | zero => omega
  | succ fuel ih =>
    have hordered := horder n (behind key rows s)
    by_cases hlong : len < (order n (behind key rows s)).length
    · obtain ⟨r, r', hr, hr', hask⟩ := keysetAsk_long (ε := ε) hlen hlong
      rw [← hordered.keys] at huncut
      obtain ⟨hfirst, hrest⟩ := (uncut_step hlen (by simpa using hlong)).mp huncut
      have hne : key r ≠ key r' := by simpa [hr, hr'] using hfirst
      have hnext := behind_next horder hlen hr hr' hne
      have hkeys : sortedKeys key (behind key rows (some (key r))) =
          ((order n (behind key rows s)).map key).drop len := by
        rw [sortedKeys_perm hnext, ← (hordered.drop len).keys, List.map_drop]
      have hlength := hnext.length_eq
      have hsame := hordered.length
      rw [List.length_drop] at hlength
      obtain ⟨pages, hpages, hcomplete⟩ := ih (n := n + 1) (s := some (key r)) (by omega)
        (hkeys ▸ hrest)
      refine ⟨_, (walk_next hask fuel).trans (by rw [hpages]; rfl), ?_⟩
      refine Complete.cons hlen hordered hlong ⟨?_, hcomplete.short, fun page hpage hempty => ?_⟩
      · exact ⟨hcomplete.ordered.perm.trans hnext, hcomplete.ordered.sorted⟩
      · exact List.perm_nil.mp ((hcomplete.more page hpage hempty) ▸ hnext.symm)
    · refine ⟨_, walk_last (keysetAsk_short (by omega)) fuel, ?_⟩
      refine ⟨by simpa using hordered, ?_, ?_⟩
      · intro page hpage
        rw [List.mem_singleton.mp hpage]
        omega
      · intro page hpage hempty
        rw [List.mem_singleton.mp hpage] at hempty
        exact List.perm_nil.mp (hempty ▸ hordered.perm.symm)

theorem behind_trans {s : Option κ} {r x : ρ} (hr : r ∈ behind key rows s)
    (hx : x ∈ behind key rows (some (key r))) : x ∈ behind key rows s ∧ key r < key x := by
  obtain ⟨hxrows, hlt⟩ := List.mem_filter.mp hx
  have hlt : key r < key x := by simpa [after] using hlt
  refine ⟨List.mem_filter.mpr ⟨hxrows, ?_⟩, hlt⟩
  have hafter := (List.mem_filter.mp hr).2
  cases s with
  | none => rfl
  | some k => exact decide_eq_true ((of_decide_eq_true hafter : k < key r).trans hlt)

theorem keyset_mem (hlen : 0 < len) (horder : Answers key order) {fuel n : ℕ} {s : Option κ}
    {result : List (List ρ) × Option ε}
    (h : walk (keysetAsk key len order rows) fuel n s = some result) :
    ∀ r ∈ result.1.flatten, r ∈ behind key rows s := by
  induction fuel generalizing n s result with
  | zero => cases h
  | succ fuel ih =>
    have hordered := horder n (behind key rows s)
    by_cases hlong : len < (order n (behind key rows s)).length
    · obtain ⟨r, r', hr, hr', hask⟩ := keysetAsk_long (ε := ε) hlen hlong
      rw [walk_next hask, Option.map_eq_some_iff] at h
      obtain ⟨rest, hrest, rfl⟩ := h
      intro x hx
      rw [List.flatten_cons, List.mem_append] at hx
      rcases hx with hx | hx
      · exact hordered.perm.mem_iff.mp (List.mem_of_mem_take hx)
      · exact (behind_trans (hordered.perm.mem_iff.mp (List.mem_of_getElem? hr)) (ih hrest x hx)).1
    · rw [walk_last (keysetAsk_short (by omega))] at h
      obtain rfl := Option.some.inj h
      intro x hx
      exact hordered.perm.mem_iff.mp (by simpa using hx)

/-- Pages that hold every row end between different keys. -/
theorem keyset_uncut (hlen : 0 < len) (horder : Answers key order) {fuel n : ℕ} {s : Option κ}
    {result : List (List ρ) × Option ε}
    (h : walk (keysetAsk key len order rows) fuel n s = some result)
    (hall : result.1.flatten.Perm (behind key rows s)) :
    Uncut len (sortedKeys key (behind key rows s)) := by
  induction fuel generalizing n s result with
  | zero => cases h
  | succ fuel ih =>
    have hordered := horder n (behind key rows s)
    by_cases hlong : len < (order n (behind key rows s)).length
    · obtain ⟨r, r', hr, hr', hask⟩ := keysetAsk_long (ε := ε) hlen hlong
      rw [walk_next hask, Option.map_eq_some_iff] at h
      obtain ⟨rest, hrest, rfl⟩ := h
      have hperm : rest.1.flatten.Perm ((order n (behind key rows s)).drop len) := by
        rw [List.flatten_cons] at hall
        have hsplit := hall.trans hordered.perm.symm
        conv at hsplit => rhs; rw [← List.take_append_drop len (order n (behind key rows s))]
        exact (List.perm_append_left_iff _).mp hsplit
      have hne : key r ≠ key r' := by
        have hmem : r' ∈ rest.1.flatten := hperm.mem_iff.mpr (List.mem_of_getElem?
          (show ((order n (behind key rows s)).drop len)[0]? = some r' by
            rw [List.getElem?_drop]; exact hr'))
        exact (behind_trans (hordered.perm.mem_iff.mp (List.mem_of_getElem? hr))
          (keyset_mem hlen horder hrest r' hmem)).2.ne
      have hnext := behind_next horder hlen hr hr' hne
      have htail := ih hrest (hperm.trans hnext.symm)
      rw [sortedKeys_perm hnext, ← (hordered.drop len).keys, List.map_drop] at htail
      rw [← hordered.keys]
      exact (uncut_step hlen (by simpa using hlong)).mpr ⟨by simpa [hr, hr'] using hne, htail⟩
    · exact uncut_short (by rw [sortedKeys_length, ← hordered.length]; omega)

/-- A client that goes on from the last row reads every row once exactly when no page ends between
two rows of one key. -/
theorem keyset_iff (hlen : 0 < len) (horder : Answers key order) :
    (∃ pages, Reads (keysetAsk (ε := ε) key len order rows) none pages none ∧
      Complete key len rows pages) ↔ Uncut len (sortedKeys key rows) := by
  have hstart : behind key rows none = rows := List.filter_eq_self.mpr fun _ _ => rfl
  constructor
  · rintro ⟨pages, ⟨enough, hreads⟩, hcomplete⟩
    have huncut := keyset_uncut hlen horder (hreads enough le_rfl)
      (hcomplete.ordered.perm.trans (by rw [hstart]))
    rwa [hstart] at huncut
  · intro huncut
    obtain ⟨pages, hpages, hcomplete⟩ := keyset_complete (ε := ε) (s := none) (n := 0) hlen horder
      (Nat.lt_succ_self (behind key rows none).length) (by rwa [hstart])
    exact ⟨pages, reads_of_walk hpages, hstart ▸ hcomplete⟩

/-! ## Going on from a number of rows -/

/-- A page behind a number of rows; positions beyond the deepest are refused. -/
def offsetAsk (tooFar : ε) (len deepest : ℕ) (order : ℕ → List ρ → List ρ) (rows : List ρ) (n off : ℕ) :
    Except ε (Page ℕ ρ) :=
  if deepest < off then .error tooFar
  else .ok (cut len (fun _ => some (off + len)) ((order n rows).drop off))

/-- The rows of the pages that are served: those that start no deeper than the deepest position. -/
def depth (len deepest : ℕ) : ℕ := len * (deepest / len + 1)

variable (key) in
/-- The pages hold the first rows in order, as deep as pages go, and no row twice. -/
structure Deep (len deep : ℕ) (rows : List ρ) (pages : List (List ρ)) (e : Option ε) : Prop where
  ordered : ∃ l, Ordered key rows l ∧ pages.flatten = l.take deep
  short : ∀ page ∈ pages, page.length ≤ len
  ending : e = none ↔ rows.length ≤ deep

variable (tooFar : ε) {deepest : ℕ}

theorem offsetAsk_deep {n off : ℕ} (h : deepest < off) :
    offsetAsk tooFar len deepest order rows n off = .error tooFar := if_pos h

theorem offsetAsk_short {n off : ℕ} (hoff : off ≤ deepest)
    (h : ((order n rows).drop off).length ≤ len) :
    offsetAsk tooFar len deepest order rows n off = .ok ⟨(order n rows).drop off, none⟩ := by
  rw [offsetAsk, if_neg (by omega), cut, if_neg (by omega), List.take_of_length_le h]

theorem offsetAsk_long {n off : ℕ} (hoff : off ≤ deepest)
    (h : len < ((order n rows).drop off).length) :
    offsetAsk tooFar len deepest order rows n off =
      .ok ⟨((order n rows).drop off).take len, some (off + len)⟩ := by
  rw [offsetAsk, if_neg (by omega), cut, if_pos h]

/-- Where two neighbours differ, every answer has the same rows behind them. -/
theorem Ordered.drop_perm {l l' : List ρ} (h : Ordered key rows l) (h' : Ordered key rows l') {p : ℕ}
    (hne : (sortedKeys key rows)[p]? ≠ (sortedKeys key rows)[p + 1]?)
    (hlt : p + 1 < rows.length) : (l.drop (p + 1)).Perm (l'.drop (p + 1)) := by
  have hget {l : List ρ} (h : Ordered key rows l) : ∃ r r', l[p]? = some r ∧ l[p + 1]? = some r' ∧
      key r ≠ key r' ∧ (sortedKeys key rows)[p]? = some (key r) := by
    have hlength := h.length
    refine ⟨_, _, List.getElem?_eq_getElem (by omega), List.getElem?_eq_getElem (by omega), ?_, ?_⟩
    · intro heq
      rw [← h.keys, List.getElem?_map, List.getElem?_map, List.getElem?_eq_getElem (by omega),
        List.getElem?_eq_getElem (by omega)] at hne
      exact hne (congrArg some heq)
    · rw [← h.keys, List.getElem?_map, List.getElem?_eq_getElem (by omega)]
      rfl
  obtain ⟨r, s, hr, hs, hrs, hkey⟩ := hget h
  obtain ⟨r', s', hr', hs', hrs', hkey'⟩ := hget h'
  rw [h.drop_eq_filter hr hs hrs, h'.drop_eq_filter hr' hs' hrs',
    Option.some.inj (hkey.symm.trans hkey')]
  exact (h.perm.trans h'.perm.symm).filter _

theorem depth_sub {off : ℕ} (hlen : 0 < len) (hdvd : len ∣ off) (hoff : off ≤ deepest) :
    len ≤ depth len deepest - off ∧
      (deepest < off + len → depth len deepest - off = len) := by
  obtain ⟨k, rfl⟩ := hdvd
  have hk : k ≤ deepest / len := (Nat.le_div_iff_mul_le hlen).mpr (by rwa [Nat.mul_comm])
  have hdepth : depth len deepest - len * k = len * (deepest / len + 1 - k) :=
    (Nat.mul_sub len (deepest / len + 1) k).symm
  rw [hdepth]
  refine ⟨Nat.le_mul_of_pos_right len (by omega), fun hdeep => ?_⟩
  have hlt : deepest / len < k + 1 := (Nat.div_lt_iff_lt_mul hlen).mpr (by
    rw [Nat.mul_comm, Nat.mul_succ]
    exact hdeep)
  rw [show deepest / len + 1 - k = 1 by omega, Nat.mul_one]

theorem offset_deep (hlen : 0 < len) (horder : Answers key order) {fuel n off : ℕ} {due : List ρ}
    (hfuel : due.length + 1 < fuel) (hdvd : len ∣ off) (hoff : off ≤ deepest)
    (hdue : ∀ l, Ordered key rows l → (l.drop off).Perm due)
    (huncut : Uncut len ((sortedKeys key due).take (deepest + 1 - off))) :
    ∃ pages e, walk (offsetAsk tooFar len deepest order rows) fuel n off = some (pages, e) ∧
      Deep key len (depth len deepest - off) due pages e := by
  induction fuel generalizing n off due with
  | zero => omega
  | succ fuel ih =>
    obtain ⟨hdepth, hlast⟩ := depth_sub hlen hdvd hoff
    have hordered : Ordered key due ((order n rows).drop off) :=
      ⟨hdue _ (horder n rows), ((horder n rows).drop off).sorted⟩
    have hlength := hordered.length
    by_cases hlong : len < ((order n rows).drop off).length
    · have hask := offsetAsk_long tooFar hoff hlong
      by_cases hdeep : deepest < off + len
      · -- the next page is refused
        obtain ⟨fuel, rfl⟩ : ∃ f, fuel = f + 1 := ⟨fuel - 1, by omega⟩
        refine ⟨_, _, (walk_next hask _).trans (by rw [walk_error (offsetAsk_deep tooFar hdeep)]; rfl), ?_⟩
        refine ⟨⟨_, hordered, by simp [hlast hdeep]⟩, by simp, ?_⟩
        have := hlast hdeep
        simp
        omega
      · have hends : (sortedKeys key due)[len - 1]? ≠ (sortedKeys key due)[len]? := by
          have hcut := huncut len hlen (Nat.dvd_refl len) (by
            rw [List.length_take, sortedKeys_length]
            omega)
          rwa [List.getElem?_take_of_lt (by omega), List.getElem?_take_of_lt (by omega)] at hcut
        have hends : (sortedKeys key due)[len - 1]? ≠ (sortedKeys key due)[len - 1 + 1]? := by
          rwa [Nat.sub_add_cancel hlen]
        have hdue' : ∀ l, Ordered key rows l →
            (l.drop (off + len)).Perm (((order n rows).drop off).drop len) := by
          intro l hl
          have hl' : Ordered key due (l.drop off) := ⟨hdue l hl, (hl.drop off).sorted⟩
          have hperm := hl'.drop_perm hordered hends (by omega)
          rwa [Nat.sub_add_cancel hlen, List.drop_drop] at hperm
        have hkeys : sortedKeys key (((order n rows).drop off).drop len) =
            (sortedKeys key due).drop len := by
          rw [← (hordered.drop len).keys, List.map_drop, hordered.keys]
        obtain ⟨pages, e, hpages, ⟨l, hl, hflat⟩, hshort, hending⟩ := @ih (n + 1) (off + len) _
          (by rw [List.length_drop]; omega) (Nat.dvd_add hdvd (Nat.dvd_refl len)) (by omega) hdue' (by
            rw [hkeys, show deepest + 1 - (off + len) = deepest + 1 - off - len by omega,
              ← List.drop_take]
            refine (uncut_step hlen ?_).mp huncut |>.2
            rw [List.length_take, sortedKeys_length]
            omega)
        refine ⟨_, _, (walk_next hask _).trans (by rw [hpages]; rfl), ?_⟩
        have htake : (((order n rows).drop off).take len).length = len := by
          rw [List.length_take]
          omega
        refine ⟨⟨((order n rows).drop off).take len ++ l, ?_, ?_⟩, ?_, ?_⟩
        · have happend := (hordered.take len).append hl (hordered.take_le_drop len)
          rw [List.take_append_drop] at happend
          exact ⟨happend.perm.trans hordered.perm, happend.sorted⟩
        · have hfirst : (((order n rows).drop off).take len).take (depth len deepest - off) =
              ((order n rows).drop off).take len := List.take_of_length_le (by omega)
          rw [List.flatten_cons, hflat, List.take_append, htake, hfirst, Nat.sub_sub]
        · intro page hpage
          rcases List.mem_cons.mp hpage with rfl | hpage
          · exact htake.le
          · exact hshort page hpage
        · rw [hending, List.length_drop]
          omega
    · refine ⟨_, _, walk_last (offsetAsk_short tooFar hoff (by omega)) fuel, ?_⟩
      refine ⟨⟨_, hordered, ?_⟩, ?_, ?_⟩
      · rw [List.take_of_length_le (by omega)]
        simp
      · intro page hpage
        rw [List.mem_singleton.mp hpage]
        omega
      · simp
        omega

/-- The first page of a walk, and what follows. -/
theorem offset_first {fuel n off : ℕ} {result : List (List ρ) × Option ε} (hoff : off ≤ deepest)
    (h : walk (offsetAsk tooFar len deepest order rows) fuel n off = some result) :
    ∃ more, result.1.flatten = ((order n rows).drop off).take len ++ more := by
  cases fuel with
  | zero => cases h
  | succ fuel =>
    by_cases hlong : len < ((order n rows).drop off).length
    · rw [walk_next (offsetAsk_long tooFar hoff hlong), Option.map_eq_some_iff] at h
      obtain ⟨rest, -, rfl⟩ := h
      exact ⟨rest.1.flatten, List.flatten_cons⟩
    · rw [walk_last (offsetAsk_short tooFar hoff (by omega))] at h
      obtain rfl := Option.some.inj h
      refine ⟨[], ?_⟩
      rw [List.take_of_length_le (by omega)]
      simp

/-- The pages before a position hold what is before it, while every answer is the same. -/
theorem offset_before {base : List ρ} {k : ℕ} (hbase : ∀ j < k, order j rows = base)
    (hdeep : k * len ≤ deepest) (hlt : k * len < base.length) {d j fuel : ℕ} (hj : j + d = k)
    {result : List (List ρ) × Option ε}
    (h : walk (offsetAsk tooFar len deepest order rows) fuel j (j * len) = some result) :
    ∃ fuel' result', walk (offsetAsk tooFar len deepest order rows) fuel' k (k * len) = some result' ∧
      result.1.flatten = (base.drop (j * len)).take (d * len) ++ result'.1.flatten := by
  induction d generalizing j fuel result with
  | zero =>
    obtain rfl : j = k := hj
    exact ⟨fuel, result, h, by simp⟩
  | succ d ih =>
    have hsplit : k * len = j * len + (d + 1) * len := by rw [← hj, Nat.add_mul]
    rw [Nat.succ_mul] at hsplit
    cases fuel with
    | zero => cases h
    | succ fuel =>
      have hj' := hbase j (by omega)
      have hlong : len < ((order j rows).drop (j * len)).length := by
        rw [hj', List.length_drop]
        omega
      rw [walk_next (offsetAsk_long tooFar (by omega) hlong), Option.map_eq_some_iff] at h
      obtain ⟨rest, hrest, rfl⟩ := h
      rw [← Nat.succ_mul] at hrest
      obtain ⟨fuel', result', hwalk, hflat⟩ := ih (j := j + 1) (by omega) hrest
      refine ⟨fuel', result', hwalk, ?_⟩
      rw [List.flatten_cons, hflat, hj', ← List.append_assoc, Nat.succ_mul d, Nat.add_comm (d * len),
        List.take_add, List.drop_drop, Nat.succ_mul j]

/-- Where two rows of one key stand on both sides of a page end, some answers show one of them twice. -/
theorem offset_uncut (hlen : 0 < len)
    (hall : ∀ order, Answers key order → ∃ pages e,
      Reads (offsetAsk tooFar len deepest order rows) 0 pages e ∧ pages.flatten.Nodup) :
    Uncut len ((sortedKeys key rows).take (deepest + 1)) := by
  classical
  rintro p hp ⟨k, rfl⟩ hlt heq
  rw [List.length_take, sortedKeys_length] at hlt
  rw [List.getElem?_take_of_lt (by omega), List.getElem?_take_of_lt (by omega)] at heq
  let base := rows.insertionSort fun a b => key a ≤ key b
  have hbase : Ordered key rows base := ordered_sort rows
  have hlength := hbase.length
  obtain ⟨a, x, y, b, hsplit, ha, hxy⟩ : ∃ a x y b, base = a ++ x :: y :: b ∧
      a.length + 1 = len * k ∧ key x = key y := by
    obtain ⟨q, hq⟩ := Nat.exists_eq_add_one_of_ne_zero hp.ne'
    rw [hq, Nat.add_sub_cancel, ← hbase.keys, List.getElem?_map, List.getElem?_map] at heq
    have hx : q < base.length := by omega
    have hy : q + 1 < base.length := by omega
    rw [List.getElem?_eq_getElem hx, List.getElem?_eq_getElem hy] at heq
    refine ⟨base.take q, base[q], base[q + 1], base.drop (q + 1 + 1), ?_, ?_, Option.some.inj heq⟩
    · rw [← List.drop_eq_getElem_cons hy, ← List.drop_eq_getElem_cons hx, List.take_append_drop]
    · rw [List.length_take]
      omega
  have hswap : Ordered key rows (a ++ y :: x :: b) := by
    refine ⟨((List.Perm.swap x y b).append_left a).trans (hsplit ▸ hbase.perm), ?_⟩
    have hsorted := hbase.sorted
    rw [hsplit] at hsorted
    simp only [List.pairwise_append, List.pairwise_cons, List.mem_cons] at hsorted ⊢
    grind
  let order : ℕ → List ρ → List ρ := fun n l =>
    if n = k ∧ l = rows then a ++ y :: x :: b else l.insertionSort fun a b => key a ≤ key b
  have horder : Answers key order := by
    intro n l
    by_cases h : n = k ∧ l = rows
    · simp only [order, if_pos h]
      exact h.2 ▸ hswap
    · simp only [order, if_neg h]
      exact ordered_sort l
  obtain ⟨pages, e, ⟨enough, hreads⟩, hflat⟩ := hall order horder
  have hwalk : walk (offsetAsk tooFar len deepest order rows) enough 0 (0 * len) = some (pages, e) := by
    rw [Nat.zero_mul]
    exact hreads enough le_rfl
  have hsame : ∀ j < k, order j rows = base := fun j hj => if_neg fun h : j = k ∧ _ => hj.ne h.1
  have hdeep : k * len ≤ deepest := by
    rw [Nat.mul_comm]
    omega
  have hshort : k * len < base.length := by
    rw [Nat.mul_comm]
    omega
  obtain ⟨fuel, result, hresult, hpages⟩ := offset_before tooFar hsame hdeep hshort (Nat.zero_add k) hwalk
  obtain ⟨more, hmore⟩ := offset_first tooFar hdeep hresult
  have horderk : order k rows = a ++ y :: x :: b := if_pos ⟨rfl, rfl⟩
  have hfirst : x ∈ (base.drop (0 * len)).take (k * len) := by
    rw [Nat.zero_mul, List.drop_zero, hsplit, Nat.mul_comm, ← ha,
      List.take_length_add_append]
    simp
  have hsecond : x ∈ result.1.flatten := by
    rw [hmore, horderk, Nat.mul_comm, ← ha]
    obtain ⟨len, rfl⟩ := Nat.exists_eq_succ_of_ne_zero hlen.ne'
    simp
  simp only [hpages] at hflat
  exact (List.disjoint_of_nodup_append hflat) hfirst hsecond

/-- A client that goes on from a number of rows reads the first rows once, whatever the answers, exactly
when no page that is served ends between two rows of one key. -/
theorem offset_iff (hlen : 0 < len) (hnodup : rows.Nodup) :
    (∀ order, Answers key order → ∃ pages e, Reads (offsetAsk tooFar len deepest order rows) 0 pages e ∧
      Deep key len (depth len deepest) rows pages e) ↔
      Uncut len ((sortedKeys key rows).take (deepest + 1)) := by
  constructor
  · intro h
    refine offset_uncut tooFar hlen fun order horder => ?_
    obtain ⟨pages, e, hreads, ⟨l, hl, hflat⟩, -, -⟩ := h order horder
    refine ⟨pages, e, hreads, ?_⟩
    rw [hflat]
    exact (hl.perm.nodup_iff.mpr hnodup).sublist (List.take_sublist _ l)
  · intro huncut order horder
    obtain ⟨pages, e, hwalk, hdeep⟩ := offset_deep tooFar (n := 0) hlen horder
      (Nat.lt_succ_self _) (Nat.dvd_zero len) (Nat.zero_le deepest) (fun l hl => hl.perm) huncut
    exact ⟨pages, e, reads_of_walk hwalk, hdeep⟩

end

end PagedReads
