import Mathlib.Data.List.Sort
import KaChatIndexer.CursorPaging

/-!
# Runs of pages

A client asks page after page until one is empty, each from the state that the page before leaves it
in. It is served exactly when each page splits what is still due into itself and what is due after
it. The last part merges several ordered lanes into one page.
-/
namespace PageRuns

section
variable {ρ σ μ : Type*} (ask : σ → List ρ) (next : σ → List ρ → σ)

/-- The pages from a state on, up to the first empty one. -/
def follow : ℕ → σ → Option (List ρ)
  | 0, _ => none
  | fuel + 1, s =>
    match ask s with
    | [] => some []
    | r :: rows => (follow fuel (next s (r :: rows))).map ((r :: rows) ++ ·)

variable (msg : ρ → μ)

/-- The run ends, with each message that is due once. -/
def Exactly (due : μ → Prop) (s : σ) : Prop :=
  ∃ enough, ∀ fuel ≥ enough, ∃ result, follow ask next fuel s = some result ∧
    (result.map msg).Nodup ∧ ∀ m, m ∈ result.map msg ↔ due m

variable {ask next msg}

theorem follow_empty {s : σ} (h : ask s = []) (fuel : ℕ) :
    follow ask next (fuel + 1) s = some [] := by
  rw [follow, h]

theorem follow_page {s : σ} (h : ask s ≠ []) (fuel : ℕ) :
    follow ask next (fuel + 1) s = (follow ask next fuel (next s (ask s))).map (ask s ++ ·) := by
  obtain ⟨r, rows, hrows⟩ := List.exists_cons_of_ne_nil h
  rw [follow, hrows]

/-- More fuel changes nothing. -/
theorem follow_mono {s : σ} {fuel : ℕ} {result : List ρ} (h : follow ask next fuel s = some result)
    (more : ℕ) : follow ask next (fuel + more) s = some result := by
  induction fuel generalizing s result with
  | zero => cases h
  | succ fuel ih =>
    rw [Nat.succ_add]
    by_cases hempty : ask s = []
    · rwa [follow_empty hempty] at h ⊢
    · rw [follow_page hempty] at h ⊢
      obtain ⟨rest, hrest, rfl⟩ := Option.map_eq_some_iff.mp h
      rw [ih hrest]
      rfl

/-- What is due from every state comes once when each page takes its part of it. -/
theorem exactly_of_pages (due : σ → μ → Prop) (size : σ → ℕ) (valid : σ → Prop)
    (hvalid : ∀ s, valid s → ask s ≠ [] → valid (next s (ask s)))
    (hnodup : ∀ s, valid s → ((ask s).map msg).Nodup)
    (hempty : ∀ s, valid s → ask s = [] → ∀ m, ¬ due s m)
    (hsplit : ∀ s, valid s → ask s ≠ [] → ∀ m,
      due s m ↔ m ∈ (ask s).map msg ∨ due (next s (ask s)) m)
    (hapart : ∀ s, valid s → ask s ≠ [] → ∀ m ∈ (ask s).map msg, ¬ due (next s (ask s)) m)
    (hsize : ∀ s, valid s → ask s ≠ [] → size (next s (ask s)) < size s)
    {s : σ} (hs : valid s) : Exactly ask next msg (due s) s := by
  have hfrom : ∀ fuel s, valid s → size s < fuel → ∃ result, follow ask next fuel s = some result ∧
      (result.map msg).Nodup ∧ ∀ m, m ∈ result.map msg ↔ due s m := by
    intro fuel
    induction fuel with
    | zero => exact fun _ _ hlt => absurd hlt (by omega)
    | succ fuel ih =>
      intro s hs hlt
      by_cases hask : ask s = []
      · refine ⟨[], follow_empty hask fuel, List.nodup_nil, fun m => ?_⟩
        simp [hempty s hs hask m]
      · have hsmaller := hsize s hs hask
        obtain ⟨rest, hrest, hrestNodup, hrestDue⟩ :=
          ih (next s (ask s)) (hvalid s hs hask) (by omega)
        refine ⟨ask s ++ rest, ?_, ?_, fun m => ?_⟩
        · rw [follow_page hask, hrest]
          rfl
        · rw [List.map_append]
          exact (hnodup s hs).append hrestNodup fun m hm hin =>
            hapart s hs hask m hm ((hrestDue m).mp hin)
        · rw [List.map_append, List.mem_append, hrestDue, hsplit s hs hask]
  exact ⟨size s + 1, fun fuel hfuel => hfrom fuel s hs (by omega)⟩

theorem Exactly.congr {due due' : μ → Prop} {s : σ} (h : Exactly ask next msg due s)
    (hdue : ∀ m, due m ↔ due' m) : Exactly ask next msg due' s := by
  obtain ⟨enough, hruns⟩ := h
  refine ⟨enough, fun fuel hfuel => ?_⟩
  obtain ⟨result, hresult, hnodup, hmem⟩ := hruns fuel hfuel
  exact ⟨result, hresult, hnodup, fun m => (hmem m).trans (hdue m)⟩

/-- What is due and not on the first page comes later. -/
theorem Exactly.later {due : μ → Prop} {s : σ} (h : Exactly ask next msg due s) (hask : ask s ≠ []) :
    ∃ fuel rest, follow ask next fuel (next s (ask s)) = some rest ∧
      (((ask s).map msg) ++ rest.map msg).Nodup ∧
      ∀ m, m ∈ (ask s).map msg ∨ m ∈ rest.map msg ↔ due m := by
  obtain ⟨enough, hruns⟩ := h
  obtain ⟨result, hresult, hnodup, hdue⟩ := hruns (enough + 1) (by omega)
  rw [follow_page hask] at hresult
  obtain ⟨rest, hrest, rfl⟩ := Option.map_eq_some_iff.mp hresult
  rw [List.map_append] at hnodup
  exact ⟨enough, rest, hrest, hnodup, fun m => by rw [← hdue, List.map_append, List.mem_append]⟩

/-- An invariant of the pages holds of all that comes. -/
theorem follow_forall (valid : σ → Prop) {p : ρ → Prop}
    (hvalid : ∀ s, valid s → ask s ≠ [] → valid (next s (ask s)))
    (hpage : ∀ s, valid s → ∀ r ∈ ask s, p r) {s : σ} (hs : valid s) {fuel : ℕ} {result : List ρ}
    (h : follow ask next fuel s = some result) : ∀ r ∈ result, p r := by
  induction fuel generalizing s result with
  | zero => cases h
  | succ fuel ih =>
    by_cases hask : ask s = []
    · rw [follow_empty hask] at h
      obtain rfl := Option.some.inj h
      simp
    · rw [follow_page hask] at h
      obtain ⟨rest, hrest, rfl⟩ := Option.map_eq_some_iff.mp h
      intro r hr
      rcases List.mem_append.mp hr with hr | hr
      · exact hpage s hs r hr
      · exact ih (hvalid s hs hask) hrest r hr

end

/-! ## One page of several lanes -/

section
variable {ρ : Type*} (le : ρ → ρ → Prop) [DecidableRel le]

/-- The oldest rows of each lane, merged and cut again. -/
def merged (limit : ℕ) (lanes : List (List ρ)) : List ρ :=
  ((lanes.map (·.take limit)).flatten.insertionSort le).take limit

variable {le} {limit : ℕ} {lanes : List (List ρ)}

theorem mem_merged {x : ρ} (h : x ∈ merged le limit lanes) : x ∈ lanes.flatten := by
  have hx := (List.perm_insertionSort le _).mem_iff.mp (List.mem_of_mem_take h)
  obtain ⟨lane, hlane, hx⟩ := List.mem_flatten.mp hx
  obtain ⟨lane, hmem, rfl⟩ := List.mem_map.mp hlane
  exact List.mem_flatten.mpr ⟨lane, hmem, List.mem_of_mem_take hx⟩

theorem merged_ne_nil (hlimit : 0 < limit) (h : lanes.flatten ≠ []) :
    merged le limit lanes ≠ [] := by
  obtain ⟨x, rest, hcons⟩ := List.exists_cons_of_ne_nil h
  obtain ⟨lane, hlane, hx⟩ := List.mem_flatten.mp (show x ∈ lanes.flatten by simp [hcons])
  obtain ⟨y, lane, rfl⟩ := List.exists_cons_of_ne_nil (List.ne_nil_of_mem hx)
  obtain ⟨limit, rfl⟩ := Nat.exists_eq_succ_of_ne_zero hlimit.ne'
  intro hnil
  have hy : y ∈ (lanes.map (·.take (limit + 1))).flatten :=
    List.mem_flatten.mpr ⟨_, List.mem_map_of_mem hlane, by simp⟩
  have hlength : (merged le (limit + 1) lanes).length = 0 := by rw [hnil]; rfl
  have hpositive := List.length_pos_of_mem hy
  rw [merged, List.length_take, List.length_insertionSort] at hlength
  omega

/-- What the lanes hold once is on a page once. -/
theorem merged_nodup {μ : Type*} {msg : ρ → μ} (h : (lanes.flatten.map msg).Nodup) :
    ((merged le limit lanes).map msg).Nodup := by
  have hsub : ∀ lanes : List (List ρ),
      List.Sublist (lanes.map (·.take limit)).flatten lanes.flatten := by
    intro lanes
    induction lanes with
    | nil => exact List.Sublist.refl _
    | cons lane lanes ih => exact (List.take_sublist limit lane).append ih
  have hall : ((lanes.map (·.take limit)).flatten.map msg).Nodup := h.sublist ((hsub lanes).map msg)
  have hsort := ((List.perm_insertionSort le _).map msg).nodup_iff.mpr hall
  exact hsort.sublist ((List.take_sublist _ _).map msg)

variable {time : ρ → ℕ}

/-- What is cut away is later than the page, where no two rows have one time. -/
theorem merged_cut [Std.Total le] [IsTrans ρ le] (hle : ∀ a b, le a b → time a ≤ time b)
    (hsorted : ∀ lane ∈ lanes, lane.Pairwise (time · < time ·))
    (hinj : ∀ x ∈ lanes.flatten, ∀ y ∈ lanes.flatten, time x = time y → x = y)
    {x : ρ} (hx : x ∈ lanes.flatten) (hcut : x ∉ merged le limit lanes) {p : ρ}
    (hp : p ∈ merged le limit lanes) : time p < time x := by
  let all := (lanes.map (·.take limit)).flatten.insertionSort le
  have hall : all.Pairwise (time · ≤ time ·) :=
    (List.pairwise_insertionSort le _).imp fun {a b} h => hle a b h
  have hsplit : all = all.take limit ++ all.drop limit := (List.take_append_drop limit all).symm
  have hafter : ∀ q ∈ all.drop limit, time p ≤ time q := fun q hq =>
    (List.pairwise_append.mp (hsplit ▸ hall)).2.2 p hp q hq
  have hne : time p ≠ time x := fun heq => hcut (hinj p (mem_merged hp) x hx heq ▸ hp)
  by_contra hnot
  have hearlier : time x < time p := by omega
  obtain ⟨lane, hlane, hin⟩ := List.mem_flatten.mp hx
  by_cases hkept : x ∈ lane.take limit
  · -- the row is merged, and cut afterwards
    have hmem : x ∈ all := (List.perm_insertionSort le _).mem_iff.mpr
      (List.mem_flatten.mpr ⟨_, List.mem_map_of_mem hlane, hkept⟩)
    rw [hsplit] at hmem
    rcases List.mem_append.mp hmem with hmem | hmem
    · exact hcut hmem
    · have hlate := hafter x hmem
      omega
  · -- its lane alone has enough rows before it to fill the page
    have hdrop : x ∈ lane.drop limit := by
      rw [← List.take_append_drop limit lane] at hin
      exact (List.mem_append.mp hin).resolve_left hkept
    have hbefore : ∀ q ∈ lane.take limit, time q < time x := fun q hq =>
      (List.pairwise_append.mp
        ((List.take_append_drop limit lane).symm ▸ hsorted lane hlane)).2.2 q hq x hdrop
    have hmany : limit ≤ all.countP (time · < time x) := by
      have hlane' : (lane.take limit).countP (time · < time x) = limit := by
        rw [List.countP_eq_length.mpr fun q hq => by simpa using hbefore q hq, List.length_take]
        have hlength := List.length_pos_of_mem hdrop
        rw [List.length_drop] at hlength
        omega
      rw [(List.perm_insertionSort le _).countP_eq]
      exact hlane'.ge.trans (List.sublist_flatten_of_mem (List.mem_map_of_mem hlane)).countP_le
    rw [hsplit, List.countP_append, (List.countP_eq_zero (l := all.drop limit)).mpr fun q hq => by
      have hlate := hafter q hq
      simp; omega, Nat.add_zero] at hmany
    have hfull : (all.take limit).countP (time · < time x) = (all.take limit).length :=
      le_antisymm List.countP_le_length ((List.length_take_le limit all).trans hmany)
    have hlate := List.countP_eq_length.mp hfull p hp
    simp only [decide_eq_true_eq] at hlate
    omega

end

end PageRuns
