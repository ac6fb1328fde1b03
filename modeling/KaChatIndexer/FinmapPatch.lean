import Mathlib.Data.Finmap

/-!
# Bulk updates of finite maps

Erasing a list of keys, inserting a list of entries, and the patch that takes an updated map back
to the one before the update.
-/
namespace FinmapPatch

variable {α β : Type*} [DecidableEq α]

def eraseAll (keys : List α) (m : Finmap fun _ : α => β) : Finmap fun _ : α => β :=
  keys.foldl (fun m a => m.erase a) m

def insertAll (entries : List (α × β)) (m : Finmap fun _ : α => β) : Finmap fun _ : α => β :=
  entries.foldl (fun m p => m.insert p.1 p.2) m

/-- A property of all keys is decided on the keys, also where the key type is finite. -/
def decidableBall (m : Finmap fun _ : α => β) (p : α → Prop) [DecidablePred p] :
    Decidable (∀ a ∈ m, p a) :=
  @decidable_of_iff _ (∀ a ∈ m.keys, p a) (by simp only [Finmap.mem_keys])
    Finset.decidableDforallFinset

theorem lookup_erase_of (a b : α) (m : Finmap fun _ : α => β) :
    (m.erase b).lookup a = if a = b then none else m.lookup a := by
  split
  · next h => rw [h, Finmap.lookup_erase]
  · next h => exact Finmap.lookup_erase_ne h

theorem lookup_insert_of (a b : α) (v : β) (m : Finmap fun _ : α => β) :
    (m.insert b v).lookup a = if a = b then some v else m.lookup a := by
  split
  · next h => rw [h, Finmap.lookup_insert]
  · next h => exact Finmap.lookup_insert_of_ne m h

theorem lookup_eraseAll (keys : List α) (m : Finmap fun _ : α => β) (a : α) :
    (eraseAll keys m).lookup a = if a ∈ keys then none else m.lookup a := by
  induction keys generalizing m with
  | nil => simp [eraseAll]
  | cons b keys ih =>
    have hcons : eraseAll (b :: keys) m = eraseAll keys (m.erase b) := rfl
    rw [hcons, ih, lookup_erase_of]
    by_cases hb : a = b <;> by_cases hk : a ∈ keys <;> simp [hb, hk]

/-- Entries read off a map put that map's values back at their keys. -/
theorem lookup_insertAll {entries : List (α × β)} {old : Finmap fun _ : α => β}
    (h : ∀ p ∈ entries, old.lookup p.1 = some p.2) (m : Finmap fun _ : α => β) (a : α) :
    (insertAll entries m).lookup a =
      if a ∈ entries.map Prod.fst then old.lookup a else m.lookup a := by
  induction entries generalizing m with
  | nil => simp [insertAll]
  | cons p entries ih =>
    have hcons : insertAll (p :: entries) m = insertAll entries (m.insert p.1 p.2) := rfl
    rw [hcons, ih fun q hq => h q (List.mem_cons_of_mem p hq), lookup_insert_of]
    by_cases hk : a ∈ entries.map Prod.fst
    · simp only [List.map_cons, List.mem_cons, hk, or_true, if_true]
    · rw [if_neg hk]
      by_cases hp : a = p.1
      · rw [if_pos hp, if_pos (by simp [hp]), hp, h p List.mem_cons_self]
      · rw [if_neg hp, if_neg (by simp only [List.map_cons, List.mem_cons, hp, hk, or_self,
          not_false_eq_true])]

/-- With distinct keys, the entries inserted and those of the map at other keys. -/
theorem lookup_insertAll_iff {entries : List (α × β)} (hnodup : (entries.map Prod.fst).Nodup)
    (m : Finmap fun _ : α => β) (a : α) (v : β) : (insertAll entries m).lookup a = some v ↔
      (a, v) ∈ entries ∨ a ∉ entries.map Prod.fst ∧ m.lookup a = some v := by
  induction entries generalizing m with
  | nil => simp [insertAll]
  | cons p entries ih =>
    rw [List.map_cons, List.nodup_cons] at hnodup
    have hcons : insertAll (p :: entries) m = insertAll entries (m.insert p.1 p.2) := rfl
    rw [hcons, ih hnodup.2, lookup_insert_of]
    by_cases hp : a = p.1
    · subst hp
      have hnot : (p.1, v) ∉ entries := fun h => hnodup.1 (List.mem_map.mpr ⟨_, h, rfl⟩)
      have hhead : some p.2 = some v ↔ (p.1, v) = p := by
        rw [Option.some.injEq, Prod.ext_iff, eq_comm (a := p.2)]
        simp
      simp only [hnot, hnodup.1, not_false_eq_true, true_and, false_or, if_true, hhead,
        List.mem_cons, List.map_cons, not_true_eq_false, false_and, or_false]
    · have hhead : (a, v) ≠ p := fun h => hp (congrArg Prod.fst h)
      simp only [hp, hhead, if_false, List.mem_cons, List.map_cons, false_or]

/-- An update that adds keys and removes entries, and leaves the other entries as they were, is
reversed by erasing what it added and inserting what it removed. -/
theorem insertAll_eraseAll {m m' : Finmap fun _ : α => β} {added : List α} {removed : List (α × β)}
    (hadd : ∀ a, a ∈ added ↔ a ∈ m' ∧ a ∉ m)
    (hrem : ∀ p ∈ removed, m.lookup p.1 = some p.2)
    (hkeep : ∀ a ∈ m, a ∉ removed.map Prod.fst → m'.lookup a = m.lookup a) :
    insertAll removed (eraseAll added m') = m := by
  apply Finmap.ext_lookup
  intro a
  rw [lookup_insertAll hrem, lookup_eraseAll]
  by_cases hr : a ∈ removed.map Prod.fst
  · rw [if_pos hr]
  · rw [if_neg hr]
    by_cases hm : a ∈ m
    · rw [if_neg fun ha => ((hadd a).mp ha).2 hm, hkeep a hm hr]
    · rw [Finmap.lookup_eq_none.mpr hm]
      by_cases hm' : a ∈ m'
      · rw [if_pos ((hadd a).mpr ⟨hm', hm⟩)]
      · rw [if_neg fun ha => hm' ((hadd a).mp ha).1, Finmap.lookup_eq_none.mpr hm']

end FinmapPatch
