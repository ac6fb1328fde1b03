import KaChatIndexer.PagedReads

/-!
# Rows of one key

A database that answers in the order of keys may put rows of one key in any order. What is read of such
an answer is the same for every answer exactly when rows of one key read the same.
-/
namespace TiedRows
open PagedReads

section
variable {ρ κ β : Type*} [LinearOrder κ] (key : ρ → κ) (read : ρ → Option β)

/-- Rows of one key that are read are read alike. -/
def Untied (rows : List ρ) : Prop :=
  ∀ a ∈ rows, ∀ b ∈ rows, key a = key b → ∀ x ∈ read a, ∀ y ∈ read b, x = y

variable {key read} {rows l l' : List ρ}

/-- The rows that are read keep the order of their keys, and of one key they are alike. -/
theorem Untied.read_eq (h : Untied key read rows) (hl : Ordered key rows l) (hl' : Ordered key rows l') :
    l.filterMap read = l'.filterMap read := by
  let pair (a : ρ) : Option (κ × β) := (read a).map fun x => (key a, x)
  have hsnd (l : List ρ) : (l.filterMap pair).map Prod.snd = l.filterMap read := by
    rw [List.map_filterMap]
    refine List.filterMap_congr fun a _ => ?_
    simp only [pair, Option.map_map]
    exact Option.map_id'
  have hmem {l : List ρ} (hl : Ordered key rows l) {p : κ × β} (hp : p ∈ l.filterMap pair) :
      ∃ a ∈ rows, key a = p.1 ∧ p.2 ∈ read a := by
    obtain ⟨a, ha, hpair⟩ := List.mem_filterMap.mp hp
    obtain ⟨x, hx, rfl⟩ := Option.map_eq_some_iff.mp hpair
    exact ⟨a, hl.perm.mem_iff.mp ha, rfl, hx⟩
  have hsorted {l : List ρ} (hl : Ordered key rows l) :
      (l.filterMap pair).Pairwise fun p q => p.1 ≤ q.1 := by
    rw [List.pairwise_filterMap]
    refine hl.sorted.imp fun {a b} hab p hp q hq => ?_
    obtain ⟨x, -, rfl⟩ := Option.map_eq_some_iff.mp hp
    obtain ⟨y, -, rfl⟩ := Option.map_eq_some_iff.mp hq
    exact hab
  have hpairs : l.filterMap pair = l'.filterMap pair := by
    refine List.Perm.eq_of_pairwise (fun p q hp hq hpq hqp => ?_) (hsorted hl) (hsorted hl')
      ((hl.perm.trans hl'.perm.symm).filterMap pair)
    obtain ⟨a, ha, hap, hxa⟩ := hmem hl hp
    obtain ⟨b, hb, hbq, hyb⟩ := hmem hl' hq
    have hkey := le_antisymm hpq hqp
    exact Prod.ext hkey (h a ha b hb (hap.trans (hkey.trans hbq.symm)) _ hxa _ hyb)
  rw [← hsnd, hpairs, hsnd]

/-- Two rows of one key that are read differently can change places. -/
theorem exists_swapped {x y : ρ} {n m : β} (hl : Ordered key rows l) (hx : x ∈ l) (hy : y ∈ l)
    (hkey : key x = key y) (hn : read x = some n) (hm : read y = some m) (hne : n ≠ m) :
    ∃ l', Ordered key rows l' ∧ l'.filterMap read ≠ l.filterMap read := by
  have hswap {x y : ρ} {n m : β} {a b c : List ρ} (hsplit : l = a ++ x :: (b ++ y :: c))
      (hkey : key x = key y) (hn : read x = some n) (hm : read y = some m) (hne : n ≠ m) :
      ∃ l', Ordered key rows l' ∧ l'.filterMap read ≠ l.filterMap read := by
    refine ⟨a ++ y :: (b ++ x :: c), ⟨?_, ?_⟩, ?_⟩
    · refine List.Perm.trans ?_ (hsplit ▸ hl.perm)
      refine List.Perm.append_left a ?_
      exact (List.perm_middle.cons y).trans ((List.Perm.swap x y _).trans (List.perm_middle.symm.cons x))
    · have hkeys : (a ++ y :: (b ++ x :: c)).map key = l.map key := by
        simp only [hsplit, List.map_append, List.map_cons, hkey]
      have hsorted : (l.map key).Pairwise (· ≤ ·) := List.pairwise_map.mpr hl.sorted
      rw [← hkeys, List.pairwise_map] at hsorted
      exact hsorted
    · rw [hsplit, List.filterMap_append, List.filterMap_append, List.filterMap_cons_some hn,
        List.filterMap_cons_some hm]
      intro heq
      exact hne (List.cons.inj (List.append_cancel_left heq)).1.symm
  obtain ⟨a, c, rfl⟩ := List.append_of_mem hx
  rcases List.mem_append.mp hy with hy | hy
  · obtain ⟨a, b, rfl⟩ := List.append_of_mem hy
    have hsplit : a ++ y :: b ++ x :: c = a ++ y :: (b ++ x :: c) := by
      rw [List.append_assoc, List.cons_append]
    exact hswap hsplit hkey.symm hm hn hne.symm
  · rcases List.mem_cons.mp hy with rfl | hy
    · exact absurd (Option.some.inj (hn.symm.trans hm)) hne
    · obtain ⟨b, c, rfl⟩ := List.append_of_mem hy
      exact hswap rfl hkey hn hm hne

/-- All answers read the same exactly when the rows do not tie. -/
theorem untied_iff : Untied key read rows ↔ ∀ l l', Ordered key rows l → Ordered key rows l' →
    l.filterMap read = l'.filterMap read := by
  constructor
  · exact fun h l l' => h.read_eq
  · intro h a ha b hb hkey x hx y hy
    by_contra hne
    have hbase : Ordered key rows _ := ordered_sort rows
    obtain ⟨l', hl', hother⟩ := exists_swapped hbase (hbase.perm.mem_iff.mpr ha)
      (hbase.perm.mem_iff.mpr hb) hkey hx hy hne
    exact hother (h l' _ hl' hbase)

end

end TiedRows
