import Mathlib.Data.List.Forall2
import Mathlib.Data.List.Nodup

/-!
# First fit

Requests are served one after the other, each with the first free slot that fits it. When requests
that share a slot share all of them, serving greedily loses nothing: if some assignment of
distinct slots exists, every request is served.
-/
namespace FirstFit

section
variable {π ι : Type*} (find : π → List ι → Option ι)

/-- `Picks used ps js`: with the slots `used` taken, the requests `ps` are served with `js`. -/
inductive Picks : List ι → List π → List ι → Prop
  | nil (used : List ι) : Picks used [] []
  | cons {used : List ι} {p : π} {j : ι} {ps : List π} {js : List ι} :
      find p used = some j → Picks (used ++ [j]) ps js → Picks used (p :: ps) (j :: js)

variable {find} {fits : π → ι → Prop}

/-- What is served fits, and no slot is taken twice. -/
theorem Picks.sound (hfind : ∀ p used j, find p used = some j → j ∉ used ∧ fits p j)
    {used js : List ι} {ps : List π} (h : Picks find used ps js) :
    List.Forall₂ fits ps js ∧ js.Nodup ∧ ∀ j ∈ js, j ∉ used := by
  induction h with
  | nil => exact ⟨.nil, List.nodup_nil, by simp⟩
  | @cons used p j ps js hj _ ih =>
    obtain ⟨hfits, hnodup, hfree⟩ := ih
    obtain ⟨hjfree, hjfits⟩ := hfind p used j hj
    refine ⟨.cons hjfits hfits, List.nodup_cons.mpr ⟨fun hmem => ?_, hnodup⟩, ?_⟩
    · exact hfree j hmem (by simp)
    · intro k hk
      rcases List.mem_cons.mp hk with rfl | hk
      · exact hjfree
      · exact fun hused => hfree k hk (List.mem_append_left _ hused)

variable [DecidableEq ι]

/-- Greedy service succeeds wherever an assignment exists. -/
theorem exists_picks (hfind : ∀ p used j, find p used = some j → j ∉ used ∧ fits p j)
    (hnone : ∀ p used, find p used = none → ∀ i, fits p i → i ∈ used)
    {ps : List π} (hshare : ∀ p ∈ ps, ∀ q ∈ ps, ∀ i j, fits p i → fits q i → fits p j → fits q j)
    {used is : List ι} (hfits : List.Forall₂ fits ps is) (hnodup : is.Nodup)
    (hfree : ∀ i ∈ is, i ∉ used) : ∃ js, Picks find used ps js := by
  induction ps generalizing used is with
  | nil => exact ⟨[], .nil used⟩
  | cons p ps ih =>
    cases hfits with
    | @cons _ i _ is hp hfits =>
      rw [List.nodup_cons] at hnodup
      cases hj : find p used with
      | none => exact absurd (hnone p used hj i hp) (hfree i List.mem_cons_self)
      | some j =>
        obtain ⟨hjfree, hpj⟩ := hfind p used j hj
        -- Whoever was assigned `j` takes `i`, which `p` leaves free, instead.
        have hswap : List.Forall₂ fits ps (is.map fun x => if x = j then i else x) := by
          rw [List.forall₂_map_right_iff]
          have hmem := (List.forall₂_and_left ps is).mpr ⟨fun q (hq : q ∈ ps) => hq, hfits⟩
          refine hmem.imp fun q x hqx => ?_
          split
          · next hx =>
            subst hx
            exact hshare p List.mem_cons_self q (List.mem_cons_of_mem p hqx.1) x i hpj hqx.2 hp
          · exact hqx.2
        have hinj : (is.map fun x => if x = j then i else x).Nodup := by
          refine hnodup.2.map_on fun x hx y hy heq => ?_
          by_cases hxj : x = j <;> by_cases hyj : y = j <;> simp only [hxj, hyj, if_true, if_false] at heq ⊢
          · exact absurd (heq ▸ hy) hnodup.1
          · exact absurd (heq ▸ hx) hnodup.1
          · exact heq
        have hfree' : ∀ x ∈ is.map (fun x => if x = j then i else x), x ∉ used ++ [j] := by
          intro x hx
          obtain ⟨y, hy, rfl⟩ := List.mem_map.mp hx
          simp only [List.mem_append, List.mem_singleton, not_or]
          split
          · next hyj =>
            refine ⟨hfree i List.mem_cons_self, ?_⟩
            rintro rfl
            exact hnodup.1 (hyj ▸ hy)
          · next hyj => exact ⟨hfree y (List.mem_cons_of_mem i hy), hyj⟩
        obtain ⟨js, hjs⟩ := ih (fun p hp q hq => hshare p (List.mem_cons_of_mem _ hp) q
          (List.mem_cons_of_mem _ hq)) hswap hinj hfree'
        exact ⟨j :: js, .cons hj hjs⟩

end

end FirstFit
