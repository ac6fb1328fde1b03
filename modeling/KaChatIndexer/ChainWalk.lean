import Mathlib.Data.List.Chain
import Mathlib.Data.Option.Basic
import Mathlib.Data.List.Forall2
import Mathlib.Data.List.Nodup
import Mathlib.Logic.Function.Basic

/-!
# Walks along references

Every item may refer to another by its key, and a key may lead to nothing. A walk follows the
references until one leads nowhere or back to an item already met, and takes at most a number of
steps. Its items are the path from where it starts, as far as no item comes twice.
-/
namespace ChainWalk

section
variable {ι α : Type*} (look : ι → Option α) (ref : α → Option ι)

/-- The item that an item refers to. -/
def next (a : α) : Option α := (ref a).bind look

/-- The first items on the path from `a`: each is what the one before refers to, none comes twice, and
there are fewer than `cap` only where the path ends or comes back to an item on it. -/
structure Path (key : α → ι) (cap : ℕ) (a : α) (items : List α) : Prop where
  linked : List.IsChain (fun x y => next look ref x = some y) (a :: items)
  distinct : ((a :: items).map key).Nodup
  short : items.length ≤ cap
  whole : items.length < cap →
    ∀ b, next look ref ((a :: items).getLast (List.cons_ne_nil a items)) = some b →
      key b ∈ (a :: items).map key

variable {look ref} {key : α → ι} {cap : ℕ} {a : α} {items : List α}

/-- A shorter path from the same item. -/
theorem Path.take {c : ℕ} (h : Path look ref key cap a items) (hc : c ≤ cap) :
    Path look ref key c a (items.take c) where
  linked := by
    rw [← List.take_succ_cons]
    exact h.linked.take (c + 1)
  distinct := by
    rw [← List.take_succ_cons, List.map_take]
    exact h.distinct.take
  short := List.length_take_le c items
  whole hlt := by
    rw [List.length_take] at hlt
    rw [List.take_of_length_le (by omega)]
    exact h.whole (by omega)

end

section
variable {ι α : Type*} [DecidableEq ι] (look : ι → Option α) (ref : α → Option ι)

/-- The items met from a reference on, at most `fuel` of them and none of a key in `seen`. -/
def walk : ℕ → List ι → Option ι → List α
  | 0, _, _ => []
  | _ + 1, _, none => []
  | fuel + 1, seen, some i =>
    if i ∈ seen then []
    else match look i with
      | none => []
      | some a => a :: walk fuel (i :: seen) (ref a)

variable {look ref} {key : α → ι}

/-- What a walk meets past the items seen before. -/
theorem walk_from (hkey : ∀ i a, look i = some a → key a = i) (fuel : ℕ) (seen : List ι) (a : α) :
    List.IsChain (fun x y => next look ref x = some y) (a :: walk look ref fuel seen (ref a)) ∧
      ((walk look ref fuel seen (ref a)).map key).Nodup ∧
      (∀ x ∈ walk look ref fuel seen (ref a), key x ∉ seen) ∧
      (walk look ref fuel seen (ref a)).length ≤ fuel ∧
      ((walk look ref fuel seen (ref a)).length < fuel →
        ∀ b, next look ref ((a :: walk look ref fuel seen (ref a)).getLast (List.cons_ne_nil _ _)) =
          some b → key b ∈ seen ∨ key b ∈ (walk look ref fuel seen (ref a)).map key) := by
  induction fuel generalizing seen a with
  | zero => simp [walk]
  | succ fuel ih =>
    cases hi : ref a with
    | none => simp [walk, next, hi]
    | some i =>
      by_cases hseen : i ∈ seen
      · refine ⟨?_, ?_, ?_, ?_, fun _ b hb => ?_⟩
        all_goals simp only [walk, if_pos hseen]
        · exact List.isChain_singleton _
        · exact List.nodup_nil
        · simp
        · simp
        · simp only [walk, if_pos hseen, List.getLast_singleton, next, hi, Option.bind_some] at hb
          exact .inl (hkey i b hb ▸ hseen)
      · cases hlook : look i with
        | none =>
          refine ⟨?_, ?_, ?_, ?_, fun _ b hb => ?_⟩
          all_goals simp only [walk, if_neg hseen, hlook]
          · exact List.isChain_singleton _
          · exact List.nodup_nil
          · simp
          · simp
          · simp [walk, hseen, hlook, next, hi] at hb
        | some c =>
          obtain ⟨hlinked, hdistinct, hnew, hlength, hwhole⟩ := ih (i :: seen) c
          have hc := hkey i c hlook
          have hwalk : walk look ref (fuel + 1) seen (some i) =
              c :: walk look ref fuel (i :: seen) (ref c) := by
            rw [walk, if_neg hseen, hlook]
          rw [hwalk]
          refine ⟨?_, ?_, ?_, ?_, fun hlt b hb => ?_⟩
          · refine List.isChain_cons_cons.mpr ⟨?_, hlinked⟩
            rw [next, hi, Option.bind_some, hlook]
          · rw [List.map_cons, List.nodup_cons]
            refine ⟨fun hmem => ?_, hdistinct⟩
            obtain ⟨x, hx, hxc⟩ := List.mem_map.mp hmem
            exact hnew x hx (by rw [hxc, hc]; exact List.mem_cons_self)
          · intro x hx
            rcases List.mem_cons.mp hx with rfl | hx
            · rw [hc]
              exact hseen
            · exact fun h => hnew x hx (List.mem_cons_of_mem _ h)
          · rw [List.length_cons]
            omega
          · rw [List.length_cons] at hlt
            rw [List.getLast_cons (List.cons_ne_nil _ _)] at hb
            rcases hwhole (by omega) b hb with hmem | hmem
            · rcases List.mem_cons.mp hmem with hbi | hmem
              · exact .inr (by rw [hbi, List.map_cons, hc]; exact List.mem_cons_self)
              · exact .inl hmem
            · exact .inr (List.mem_cons_of_mem _ hmem)

/-- A walk that has seen only where it starts meets the path from there. -/
theorem walk_path (hkey : ∀ i a, look i = some a → key a = i) (fuel : ℕ) (a : α) :
    Path look ref key fuel a (walk look ref fuel [key a] (ref a)) := by
  obtain ⟨hlinked, hdistinct, hnew, hlength, hwhole⟩ := walk_from hkey fuel [key a] a
  refine ⟨hlinked, ?_, hlength, fun hlt b hb => ?_⟩
  · rw [List.map_cons, List.nodup_cons]
    refine ⟨fun hmem => ?_, hdistinct⟩
    obtain ⟨x, hx, hxa⟩ := List.mem_map.mp hmem
    exact hnew x hx (by rw [hxa]; exact List.mem_cons_self)
  · rw [List.map_cons, List.mem_cons]
    exact (hwhole hlt b hb).imp_left List.mem_singleton.mp

/-- Walks whose keys and items correspond meet corresponding items. -/
theorem walk_rel {ι' α' : Type*} [DecidableEq ι'] {look' : ι' → Option α'} {ref' : α' → Option ι'}
    {R : α → α' → Prop} {f : ι → ι'} (hf : Function.Injective f)
    (hlook : ∀ i, Option.Rel R (look i) (look' (f i))) (href : ∀ a a', R a a' → ref' a' = (ref a).map f)
    (fuel : ℕ) (seen : List ι) (o : Option ι) :
    List.Forall₂ R (walk look ref fuel seen o) (walk look' ref' fuel (seen.map f) (o.map f)) := by
  induction fuel generalizing seen o with
  | zero => exact .nil
  | succ fuel ih =>
    cases o with
    | none => exact .nil
    | some i =>
      rw [Option.map_some, walk, walk]
      have hmem : f i ∈ seen.map f ↔ i ∈ seen := List.mem_map_of_injective hf
      by_cases hi : i ∈ seen
      · rw [if_pos hi, if_pos (hmem.mpr hi)]
        exact .nil
      · rw [if_neg hi, if_neg (mt hmem.mp hi)]
        have hrel := hlook i
        cases hl : look i <;> cases hl' : look' (f i) <;> rw [hl, hl'] at hrel
        · exact .nil
        · cases hrel
        · cases hrel
        · next a a' =>
          cases hrel with
          | some hrel =>
            refine .cons hrel ?_
            rw [href a a' hrel]
            exact ih (i :: seen) (ref a)

end

end ChainWalk
