import KaChatIndexer.PagedReads

/-!
# Paging by marks

The next page holds what a query finds past the mark of the last row, which need not be what the order
puts after that row: a mark may stand for several rows or for none. Every row comes once exactly when at
every page end the mark of the last row finds what is after it.
-/
namespace MarkedReads
open PagedReads

/-! ## Rows shown in another form -/

section
variable {ρ α σ ε : Type*}

/-- The same pages, each row shown as an item. -/
def shown (item : ρ → α) (ask : ℕ → σ → Except ε (Page σ ρ)) (n : ℕ) (s : σ) : Except ε (Page σ α) :=
  (ask n s).map fun page => ⟨page.rows.map item, page.next⟩

theorem walk_shown (item : ρ → α) (ask : ℕ → σ → Except ε (Page σ ρ)) (fuel n : ℕ) (s : σ) :
    walk (shown item ask) fuel n s =
      (walk ask fuel n s).map fun result => (result.1.map (List.map item), result.2) := by
  induction fuel generalizing n s with
  | zero => rfl
  | succ fuel ih =>
    rw [walk, walk, shown]
    cases ask n s with
    | error e => rfl
    | ok page =>
      obtain ⟨rows, next⟩ := page
      cases next with
      | none => rfl
      | some s' =>
        simp only [Except.map, ih]
        cases walk ask fuel (n + 1) s' <;> rfl

theorem reads_shown {item : ρ → α} {ask : ℕ → σ → Except ε (Page σ ρ)} {s : σ} {pages : List (List ρ)}
    {e : Option ε} (h : Reads ask s pages e) : Reads (shown item ask) s (pages.map (List.map item)) e := by
  obtain ⟨enough, hreads⟩ := h
  refine ⟨enough, fun fuel hfuel => ?_⟩
  rw [walk_shown, hreads fuel hfuel]
  rfl

theorem map_injOn {item : ρ → α} {rows l l' : List ρ}
    (hinj : ∀ r ∈ rows, ∀ r' ∈ rows, item r = item r' → r = r') (hl : ∀ r ∈ l, r ∈ rows)
    (hl' : ∀ r ∈ l', r ∈ rows) (h : l.map item = l'.map item) : l = l' := by
  induction l generalizing l' with
  | nil => simpa using h.symm
  | cons r l ih =>
    cases l' with
    | nil => simp at h
    | cons r' l' =>
      obtain ⟨hhead, htail⟩ := List.cons.inj h
      rw [hinj r (hl r List.mem_cons_self) r' (hl' r' List.mem_cons_self) hhead,
        ih (fun x hx => hl x (List.mem_cons_of_mem r hx))
          (fun x hx => hl' x (List.mem_cons_of_mem r' hx)) htail]

/-- Pages of rows that no two items stand for are known by their items. -/
theorem shown_reads {item : ρ → α} {ask : ℕ → σ → Except ε (Page σ ρ)} {s : σ} {rows : List ρ}
    {pages : List (List ρ)} {e : Option ε}
    (hinj : ∀ r ∈ rows, ∀ r' ∈ rows, item r = item r' → r = r')
    (hask : ∀ fuel result, walk ask fuel 0 s = some result → ∀ r ∈ result.1.flatten, r ∈ rows)
    (hpages : ∀ r ∈ pages.flatten, r ∈ rows)
    (h : Reads (shown item ask) s (pages.map (List.map item)) e) : Reads ask s pages e := by
  obtain ⟨enough, hreads⟩ := h
  have hshown := hreads enough le_rfl
  rw [walk_shown, Option.map_eq_some_iff] at hshown
  obtain ⟨⟨pages', e'⟩, hwalk, heq⟩ := hshown
  obtain ⟨hitems, rfl⟩ := Prod.mk.inj heq
  have hmem {l : List (List ρ)} (hl : ∀ r ∈ l.flatten, r ∈ rows) :
      ∀ page ∈ l, page ∈ {page : List ρ | ∀ r ∈ page, r ∈ rows} :=
    fun page hpage r hr => hl r (List.mem_flatten.mpr ⟨page, hpage, hr⟩)
  have hsame : pages' = pages := by
    have hfirst := hmem (hask enough _ hwalk)
    have hsecond := hmem hpages
    clear hwalk heq hreads hask hpages hmem
    induction pages' generalizing pages with
    | nil => simpa using hitems.symm
    | cons page pages' ih =>
      cases pages with
      | nil => simp at hitems
      | cons page' pages =>
        obtain ⟨hhead, htail⟩ := List.cons.inj hitems
        rw [map_injOn hinj (hfirst page List.mem_cons_self) (hsecond page' List.mem_cons_self) hhead,
          ih htail (fun x hx => hfirst x (List.mem_cons_of_mem page hx))
            fun x hx => hsecond x (List.mem_cons_of_mem page' hx)]
  exact hsame ▸ reads_of_walk hwalk

end

/-! ## Marks -/

section
variable {ρ σ κ ε : Type*} [LinearOrder κ] {key : ρ → κ}

/-- The rows in the order of their keys, where no two keys are the same. -/
theorem Ordered.unique {rows l l' : List ρ} (hkeys : (rows.map key).Nodup) (h : Ordered key rows l)
    (h' : Ordered key rows l') : l = l' := by
  refine (h.perm.trans h'.perm.symm).eq_of_pairwise (fun a b ha hb hab hba => ?_) h.sorted h'.sorted
  exact List.inj_on_of_nodup_map hkeys (h.perm.mem_iff.mp ha) (h'.perm.mem_iff.mp hb) (le_antisymm hab hba)

variable (mark : ρ → σ) (past : σ → ρ → Bool)

def ahead (rows : List ρ) (s : Option σ) : List ρ := rows.filter fun r => s.all (past · r)

/-- A page of what is past a mark; the mark of its last row is the next position. -/
def markAsk (len : ℕ) (order : ℕ → List ρ → List ρ) (rows : List ρ) (n : ℕ) (s : Option σ) :
    Except ε (Page (Option σ) ρ) :=
  .ok (cut len (fun page => page.getLast?.map fun r => some (mark r)) (order n (ahead past rows s)))

variable (key) in
/-- The mark of a row finds what is after the row. -/
def Finds (rows : List ρ) (r : ρ) : Prop := ∀ x ∈ rows, past (mark r) x = true ↔ key r < key x

variable (key) in
/-- Every page that another follows ends at a row whose mark finds what is after it. -/
def EndsMarked (len : ℕ) (rows l : List ρ) : Prop :=
  ∀ p r r', 0 < p → len ∣ p → l[p - 1]? = some r → l[p]? = some r' → Finds key mark past rows r

variable (key) in
/-- What the mark of an earlier row passes over is lost to every later mark. -/
structure Losing (rows : List ρ) (lost : σ → ρ → Prop) : Prop where
  starts : ∀ r ∈ rows, ∀ x ∈ rows, key r < key x → past (mark r) x = false → lost (mark r) x
  hides : ∀ s x, lost s x → past s x = false
  stays : ∀ s x r, lost s x → past s r = true → lost (mark r) x

variable {mark past}
variable {len : ℕ} {order : ℕ → List ρ → List ρ} {rows : List ρ} {lost : σ → ρ → Prop}

theorem markAsk_short {n : ℕ} {s : Option σ} (h : (order n (ahead past rows s)).length ≤ len) :
    markAsk (ε := ε) mark past len order rows n s = .ok ⟨order n (ahead past rows s), none⟩ := by
  rw [markAsk, cut, if_neg (by omega), List.take_of_length_le h]

theorem markAsk_long {n : ℕ} {s : Option σ} {r : ρ} (hlen : 0 < len)
    (h : len < (order n (ahead past rows s)).length)
    (hr : (order n (ahead past rows s))[len - 1]? = some r) :
    markAsk (ε := ε) mark past len order rows n s =
      .ok ⟨(order n (ahead past rows s)).take len, some (some (mark r))⟩ := by
  rw [markAsk, cut, if_pos h, List.getLast?_take, if_neg hlen.ne', hr]
  rfl

/-- The first rows of a walk are those of its first answer. -/
theorem mark_first (hlen : 0 < len) {fuel n : ℕ} {s : Option σ} {result : List (List ρ) × Option ε}
    (h : walk (markAsk mark past len order rows) fuel n s = some result) :
    ∃ more, result.1.flatten = (order n (ahead past rows s)).take len ++ more := by
  cases fuel with
  | zero => cases h
  | succ fuel =>
    by_cases hlong : len < (order n (ahead past rows s)).length
    · rw [walk_next (markAsk_long hlen hlong (List.getElem?_eq_getElem (by omega))),
        Option.map_eq_some_iff] at h
      obtain ⟨rest, -, rfl⟩ := h
      exact ⟨rest.1.flatten, List.flatten_cons⟩
    · rw [walk_last (markAsk_short (by omega))] at h
      obtain rfl := Option.some.inj h
      refine ⟨[], ?_⟩
      rw [List.take_of_length_le (by omega)]
      simp

theorem mark_mem (hlen : 0 < len) (horder : Answers key order) {fuel n : ℕ} {s : Option σ}
    {result : List (List ρ) × Option ε}
    (h : walk (markAsk mark past len order rows) fuel n s = some result) :
    ∀ r ∈ result.1.flatten, r ∈ rows := by
  induction fuel generalizing n s result with
  | zero => cases h
  | succ fuel ih =>
    have hmem {r : ρ} (hr : r ∈ order n (ahead past rows s)) : r ∈ rows :=
      (List.mem_filter.mp ((horder n _).perm.mem_iff.mp hr)).1
    by_cases hlong : len < (order n (ahead past rows s)).length
    · rw [walk_next (markAsk_long hlen hlong (List.getElem?_eq_getElem (by omega))),
        Option.map_eq_some_iff] at h
      obtain ⟨rest, hrest, rfl⟩ := h
      intro r hr
      rw [List.flatten_cons, List.mem_append] at hr
      rcases hr with hr | hr
      · exact hmem (List.mem_of_mem_take hr)
      · exact ih hrest r hr
    · rw [walk_last (markAsk_short (by omega))] at h
      obtain rfl := Option.some.inj h
      intro r hr
      exact hmem (by simpa using hr)

/-- Of no rows there is one page, which is empty. -/
theorem mark_nil (horder : Answers key order) :
    Reads (markAsk (ε := ε) mark past len order []) none [[]] none := by
  have hanswer : order 0 (ahead past [] none) = [] := List.perm_nil.mp (horder 0 _).perm
  refine reads_of_walk (walk_last ?_ 0)
  rw [markAsk_short (by rw [hanswer]; exact Nat.zero_le len), hanswer]

theorem mark_lost (hlen : 0 < len) (horder : Answers key order) (hlost : Losing key mark past rows lost)
    {x : ρ} {fuel n : ℕ} {s : σ} {result : List (List ρ) × Option ε}
    (h : walk (markAsk mark past len order rows) fuel n (some s) = some result) (hx : lost s x) :
    x ∉ result.1.flatten := by
  induction fuel generalizing n s result with
  | zero => cases h
  | succ fuel ih =>
    have hmem {r : ρ} (hr : r ∈ order n (ahead past rows (some s))) : past s r = true :=
      (List.mem_filter.mp ((horder n _).perm.mem_iff.mp hr)).2
    have hnot : x ∉ order n (ahead past rows (some s)) := fun hr => by
      have hhidden := hlost.hides s x hx
      rw [hmem hr] at hhidden
      cases hhidden
    by_cases hlong : len < (order n (ahead past rows (some s))).length
    · obtain ⟨r, hr⟩ : ∃ r, (order n (ahead past rows (some s)))[len - 1]? = some r :=
        ⟨_, List.getElem?_eq_getElem (by omega)⟩
      rw [walk_next (markAsk_long hlen hlong hr), Option.map_eq_some_iff] at h
      obtain ⟨rest, hrest, rfl⟩ := h
      rw [List.flatten_cons, List.mem_append]
      rintro (hfirst | hlater)
      · exact hnot (List.mem_of_mem_take hfirst)
      · exact ih hrest (hlost.stays s x r hx (hmem (List.mem_of_getElem? hr))) hlater
    · rw [walk_last (markAsk_short (by omega))] at h
      obtain rfl := Option.some.inj h
      simpa using hnot

variable {l : List ρ}

theorem key_ne (hkeys : (rows.map key).Nodup) (hl : Ordered key rows l) {i j : ℕ} {a b : ρ}
    (ha : l[i]? = some a) (hb : l[j]? = some b) (hij : i ≠ j) : key a ≠ key b := by
  have hlkeys : (l.map key).Nodup := (hl.perm.map key).nodup_iff.mpr hkeys
  intro heq
  obtain ⟨hi, hia⟩ := List.getElem?_eq_some_iff.mp ha
  obtain ⟨hj, hjb⟩ := List.getElem?_eq_some_iff.mp hb
  have hsame := List.inj_on_of_nodup_map hlkeys (List.mem_of_getElem? ha) (List.mem_of_getElem? hb) heq
  exact hij ((List.Nodup.getElem_inj_iff hlkeys.of_map).mp (hia.trans (hsame.trans hjb.symm)))

theorem key_lt (hkeys : (rows.map key).Nodup) (hl : Ordered key rows l) {i : ℕ} {a b : ρ}
    (ha : l[i]? = some a) (hb : l[i + 1]? = some b) : key a < key b := by
  refine lt_of_le_of_ne ?_ (key_ne hkeys hl ha hb (Nat.succ_ne_self i).symm)
  refine hl.take_le_drop (i + 1) a ?_ b ?_
  · exact List.mem_of_getElem? (by rw [List.getElem?_take_of_lt (Nat.lt_succ_self i), ha])
  · exact List.mem_of_getElem? (show (l.drop (i + 1))[0]? = some b by rw [List.getElem?_drop, hb])

/-- No row is between two neighbours. -/
theorem next_least (hkeys : (rows.map key).Nodup) (hl : Ordered key rows l) {i : ℕ} {a b x : ρ}
    (ha : l[i]? = some a) (hb : l[i + 1]? = some b) (hx : x ∈ rows) (hlt : key a < key x) :
    key b ≤ key x := by
  have hmem : x ∈ l.drop (i + 1) := by
    rw [hl.drop_eq_filter ha hb (key_lt hkeys hl ha hb).ne]
    exact List.mem_filter.mpr ⟨hl.perm.mem_iff.mpr hx, decide_eq_true hlt⟩
  obtain ⟨hi, hget⟩ := List.getElem?_eq_some_iff.mp hb
  have hsorted := (hl.drop (i + 1)).sorted
  rw [List.drop_eq_getElem_cons hi, hget] at hmem hsorted
  rcases List.mem_cons.mp hmem with rfl | hmem
  · exact le_rfl
  · exact (List.pairwise_cons.mp hsorted).1 x hmem

/-- The rows after a place are ordered, and are what a mark that finds them finds. -/
theorem ahead_found (hkeys : (rows.map key).Nodup) (hl : Ordered key rows l) {p : ℕ} {r r' : ρ}
    (hr : l[p]? = some r) (hr' : l[p + 1]? = some r') (h : Finds key mark past rows r) :
    (ahead past rows (some (mark r))).Perm (l.drop (p + 1)) := by
  rw [hl.drop_eq_filter hr hr' (key_lt hkeys hl hr hr').ne]
  have hfilter : ahead past rows (some (mark r)) = rows.filter (key r < key ·) := by
    refine List.filter_congr fun x hx => ?_
    have hfinds := h x hx
    rw [Option.all_some, Bool.eq_iff_iff, hfinds, decide_eq_true_iff]
  rw [hfilter]
  exact (hl.perm.filter _).symm

theorem drop_nodup (hkeys : (rows.map key).Nodup) (hl : Ordered key rows l) (p : ℕ) :
    ((l.drop p).map key).Nodup := by
  have hlkeys : (l.map key).Nodup := (hl.perm.map key).nodup_iff.mpr hkeys
  exact hlkeys.sublist ((List.drop_sublist p l).map key)

/-- An answer that has the rows after a place has them in their order. -/
theorem answer_drop (horder : Answers key order) (hkeys : (rows.map key).Nodup) (hl : Ordered key rows l)
    {n q : ℕ} {found : List ρ} (hfound : found.Perm (l.drop q)) : order n found = l.drop q := by
  have hanswer := horder n found
  exact Ordered.unique (drop_nodup hkeys hl q) ⟨hanswer.perm.trans hfound, hanswer.sorted⟩ (hl.drop q)

theorem mark_complete (hlen : 0 < len) (horder : Answers key order) (hkeys : (rows.map key).Nodup)
    (hl : Ordered key rows l) (hends : EndsMarked key mark past len rows l) {fuel n q : ℕ}
    {s : Option σ} (hfuel : l.length < fuel + q) (hle : q ≤ l.length) (hq : len ∣ q)
    (hs : (ahead past rows s).Perm (l.drop q)) :
    ∃ pages, walk (markAsk (ε := ε) mark past len order rows) fuel n s = some (pages, none) ∧
      Complete key len (l.drop q) pages := by
  induction fuel generalizing n q s with
  | zero => omega
  | succ fuel ih =>
    have hanswer := answer_drop (n := n) horder hkeys hl hs
    have hlength : (l.drop q).length = l.length - q := List.length_drop
    by_cases hlong : len < (l.drop q).length
    · obtain ⟨r, hr⟩ : ∃ r, l[q + len - 1]? = some r := ⟨_, List.getElem?_eq_getElem (by omega)⟩
      obtain ⟨r', hr'⟩ : ∃ r', l[q + len]? = some r' := ⟨_, List.getElem?_eq_getElem (by omega)⟩
      have hlast : (order n (ahead past rows s))[len - 1]? = some r := by
        rw [hanswer, List.getElem?_drop, ← Nat.add_sub_assoc hlen, hr]
      have hfinds := hends (q + len) r r' (by omega) (Nat.dvd_add hq (Nat.dvd_refl len)) hr hr'
      have hnext := ahead_found hkeys hl hr (by rwa [Nat.sub_add_cancel (by omega)]) hfinds
      rw [Nat.sub_add_cancel (by omega)] at hnext
      obtain ⟨pages, hpages, hcomplete⟩ := ih (n := n + 1) (q := q + len) (by omega) (by omega)
        (Nat.dvd_add hq (Nat.dvd_refl len)) hnext
      refine ⟨_, (walk_next (markAsk_long hlen (hanswer ▸ hlong) hlast) fuel).trans
        (by rw [hpages]; rfl), ?_⟩
      rw [hanswer]
      exact Complete.cons hlen (hl.drop q) hlong (by rwa [List.drop_drop])
    · refine ⟨_, walk_last (markAsk_short (by rw [hanswer]; omega)) fuel, ?_⟩
      rw [hanswer]
      refine ⟨by simpa using hl.drop q, ?_, ?_⟩
      · intro page hpage
        rw [List.mem_singleton.mp hpage]
        omega
      · intro page hpage hempty
        rwa [List.mem_singleton.mp hpage] at hempty

/-- The next page starts with the first row that a mark finds. -/
theorem found_after (hlen : 0 < len) (horder : Answers key order) (hkeys : (rows.map key).Nodup)
    (hl : Ordered key rows l) {p fuel n : ℕ} {a b : ρ} {result : List (List ρ) × Option ε}
    (ha : l[p]? = some a) (hb : l[p + 1]? = some b)
    (h : walk (markAsk mark past len order rows) fuel n (some (mark a)) = some result)
    (hall : result.1.flatten = l.drop (p + 1)) {x : ρ} (hx : x ∈ rows) (hpast : past (mark a) x = true) :
    key a < key x := by
  obtain ⟨more, hmore⟩ := mark_first hlen h
  have hordered := horder n (ahead past rows (some (mark a)))
  have hxin : x ∈ order n (ahead past rows (some (mark a))) :=
    hordered.perm.mem_iff.mpr (List.mem_filter.mpr ⟨hx, hpast⟩)
  cases hfirst : order n (ahead past rows (some (mark a))) with
  | nil => simp [hfirst] at hxin
  | cons y ys =>
    have hy : y = b := by
      have hhead : (l.drop (p + 1))[0]? = some b := by rw [List.getElem?_drop, hb]
      obtain ⟨k, rfl⟩ := Nat.exists_eq_succ_of_ne_zero hlen.ne'
      rw [← hall, hmore, hfirst] at hhead
      exact Option.some.inj hhead
    have hle : key y ≤ key x := by
      rw [hfirst] at hxin
      rcases List.mem_cons.mp hxin with rfl | hmem
      · exact le_rfl
      · exact (List.pairwise_cons.mp (hfirst ▸ hordered.sorted)).1 x hmem
    exact (key_lt hkeys hl ha hb).trans_le (hy ▸ hle)

/-- A row that is not found after a page is not found on any later one. -/
theorem after_found (hlen : 0 < len) (horder : Answers key order) (hkeys : (rows.map key).Nodup)
    (hl : Ordered key rows l) (hlost : Losing key mark past rows lost) {p fuel n : ℕ} {a b : ρ}
    {result : List (List ρ) × Option ε} (ha : l[p]? = some a) (hb : l[p + 1]? = some b)
    (h : walk (markAsk mark past len order rows) fuel n (some (mark a)) = some result)
    (hall : result.1.flatten = l.drop (p + 1)) {x : ρ} (hx : x ∈ rows) (hlt : key a < key x) :
    past (mark a) x = true := by
  by_contra hpast
  have hgone := hlost.starts a (hl.perm.mem_iff.mp (List.mem_of_getElem? ha)) x hx hlt (by simpa using hpast)
  refine mark_lost hlen horder hlost h hgone ?_
  rw [hall, hl.drop_eq_filter ha hb (key_lt hkeys hl ha hb).ne]
  exact List.mem_filter.mpr ⟨hl.perm.mem_iff.mpr hx, decide_eq_true hlt⟩

/-- Where the pages hold the rows after a place, every page ends at a row whose mark finds the rest. -/
theorem mark_ends (hlen : 0 < len) (horder : Answers key order) (hkeys : (rows.map key).Nodup)
    (hl : Ordered key rows l) (hlost : Losing key mark past rows lost) {fuel n q : ℕ} {s : Option σ}
    {result : List (List ρ) × Option ε} (hs : (ahead past rows s).Perm (l.drop q))
    (h : walk (markAsk mark past len order rows) fuel n s = some result)
    (hall : result.1.flatten = l.drop q) {p : ℕ} {r r' : ρ} (hp : q < p) (hdvd : len ∣ p - q)
    (hr : l[p - 1]? = some r) (hr' : l[p]? = some r') : Finds key mark past rows r := by
  induction fuel generalizing n q s result with
  | zero => cases h
  | succ fuel ih =>
    have hanswer := answer_drop (n := n) horder hkeys hl hs
    have hple := Nat.le_of_dvd (by omega) hdvd
    have hplt : p < l.length := (List.getElem?_eq_some_iff.mp hr').1
    have hlength : (l.drop q).length = l.length - q := List.length_drop
    have hlong : len < (order n (ahead past rows s)).length := by
      rw [hanswer]
      omega
    obtain ⟨a, ha⟩ : ∃ a, l[q + len - 1]? = some a := ⟨_, List.getElem?_eq_getElem (by omega)⟩
    obtain ⟨b, hb⟩ : ∃ b, l[q + len - 1 + 1]? = some b := ⟨_, List.getElem?_eq_getElem (by omega)⟩
    have hplace : q + len - 1 + 1 = q + len := Nat.sub_add_cancel (by omega)
    have hlast : (order n (ahead past rows s))[len - 1]? = some a := by
      rw [hanswer, List.getElem?_drop, ← Nat.add_sub_assoc hlen, ha]
    rw [walk_next (markAsk_long hlen hlong hlast), Option.map_eq_some_iff] at h
    obtain ⟨rest, hrest, rfl⟩ := h
    have hflat : rest.1.flatten = l.drop (q + len) := by
      rw [List.flatten_cons, hanswer] at hall
      conv at hall => rhs; rw [← List.take_append_drop len (l.drop q), List.drop_drop]
      exact List.append_cancel_left hall
    have hfinds : Finds key mark past rows a := fun x hx =>
      ⟨found_after hlen horder hkeys hl ha hb hrest (hplace ▸ hflat) hx,
        after_found hlen horder hkeys hl hlost ha hb hrest (hplace ▸ hflat) hx⟩
    by_cases heq : p = q + len
    · rw [heq, ha] at hr
      exact Option.some.inj hr ▸ hfinds
    · have hafter := ahead_found hkeys hl ha hb hfinds
      rw [hplace] at hafter
      refine ih hafter hrest hflat (by omega) ?_
      have hsub := Nat.dvd_sub hdvd (Nat.dvd_refl len)
      rwa [show p - (q + len) = p - q - len by omega]

/-- A client that goes on from marks reads every row once exactly when at every page end the mark finds
what is after it. -/
theorem mark_iff (hlen : 0 < len) (horder : Answers key order) (hkeys : (rows.map key).Nodup)
    (hl : Ordered key rows l) (hlost : Losing key mark past rows lost) :
    (∃ pages, Reads (markAsk (ε := ε) mark past len order rows) none pages none ∧
      Complete key len rows pages) ↔ EndsMarked key mark past len rows l := by
  have hstart : (ahead past rows none).Perm (l.drop 0) := by
    have hall : ahead past rows none = rows := List.filter_eq_self.mpr fun _ _ => rfl
    rw [hall]
    exact hl.perm.symm
  constructor
  · rintro ⟨pages, ⟨enough, hreads⟩, hcomplete⟩ p r r' hp hdvd hr hr'
    have hflat : pages.flatten = l := Ordered.unique hkeys hcomplete.ordered hl
    exact mark_ends hlen horder hkeys hl hlost hstart (hreads enough le_rfl) hflat hp hdvd hr hr'
  · intro hends
    obtain ⟨pages, hpages, hcomplete⟩ := mark_complete (ε := ε) (n := 0) hlen horder hkeys hl hends
      (Nat.lt_succ_self l.length) (Nat.zero_le _) (Nat.dvd_zero len) hstart
    refine ⟨pages, reads_of_walk hpages, ?_, hcomplete.short, fun page hpage hempty => ?_⟩
    · exact ⟨hcomplete.ordered.perm.trans hl.perm, hcomplete.ordered.sorted⟩
    · have hnil : l = [] := hcomplete.more page hpage hempty
      exact List.perm_nil.mp (hnil ▸ hl.perm.symm)

end

end MarkedReads
