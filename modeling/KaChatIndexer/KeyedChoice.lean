import Mathlib.Data.List.Induction
import Mathlib.Data.List.Nodup
import Mathlib.Data.Prod.Lex

/-!
# The first of a key and the best of an owner

Two passes over a list that is sorted by time. One keeps the first item of each key, the other the
item of the best score of each owner, of equal scores the earlier. What they keep can be told from
the items alone.
-/
namespace KeyedChoice

section
variable {α κ τ : Type*} [DecidableEq κ] [LinearOrder τ] (key : α → Option κ)

/-- The items whose key was not met before. An item without a key is passed over. -/
def firsts : List κ → List α → List α
  | _, [] => []
  | seen, a :: rest =>
    match key a with
    | none => firsts seen rest
    | some k => if k ∈ seen then firsts seen rest else a :: firsts (k :: seen) rest

theorem firsts_sublist (seen : List κ) (xs : List α) : (firsts key seen xs).Sublist xs := by
  induction xs generalizing seen with
  | nil => exact .slnil
  | cons a rest ih =>
    unfold firsts
    split
    · exact (ih seen).cons a
    · next k _ =>
      split
      · exact (ih seen).cons a
      · exact (ih (k :: seen)).cons_cons a

variable {key} {time : α → τ}

/-- An item is kept if it is the earliest of its key. -/
theorem mem_firsts {xs : List α} (h : xs.Pairwise fun a b => time a < time b) (seen : List κ) {a : α} :
    a ∈ firsts key seen xs ↔ a ∈ xs ∧ ∃ k, key a = some k ∧ k ∉ seen ∧
      ∀ b ∈ xs, key b = some k → time a ≤ time b := by
  induction xs generalizing seen with
  | nil => simp [firsts]
  | cons c rest ih =>
    rw [List.pairwise_cons] at h
    cases hc : key c with
    | none =>
      have hskip : firsts key seen (c :: rest) = firsts key seen rest := by rw [firsts, hc]
      rw [hskip, ih h.2]
      constructor
      · rintro ⟨ha, k, hk, hseen, hfirst⟩
        refine ⟨List.mem_cons_of_mem c ha, k, hk, hseen, fun b hb hbk => ?_⟩
        rcases List.mem_cons.mp hb with rfl | hb
        · rw [hc] at hbk
          cases hbk
        · exact hfirst b hb hbk
      · rintro ⟨ha, k, hk, hseen, hfirst⟩
        rcases List.mem_cons.mp ha with rfl | ha
        · rw [hc] at hk
          cases hk
        · exact ⟨ha, k, hk, hseen, fun b hb => hfirst b (List.mem_cons_of_mem c hb)⟩
    | some k =>
      by_cases hk : k ∈ seen
      · have hskip : firsts key seen (c :: rest) = firsts key seen rest := by
          rw [firsts, hc]
          exact if_pos hk
        rw [hskip, ih h.2]
        constructor
        · rintro ⟨ha, j, hj, hseen, hfirst⟩
          refine ⟨List.mem_cons_of_mem c ha, j, hj, hseen, fun b hb hbj => ?_⟩
          rcases List.mem_cons.mp hb with rfl | hb
          · rw [hc] at hbj
            exact absurd (Option.some.inj hbj ▸ hk) hseen
          · exact hfirst b hb hbj
        · rintro ⟨ha, j, hj, hseen, hfirst⟩
          rcases List.mem_cons.mp ha with rfl | ha
          · rw [hc] at hj
            exact absurd (Option.some.inj hj ▸ hk) hseen
          · exact ⟨ha, j, hj, hseen, fun b hb => hfirst b (List.mem_cons_of_mem c hb)⟩
      · have hkeep : firsts key seen (c :: rest) = c :: firsts key (k :: seen) rest := by
          rw [firsts, hc]
          exact if_neg hk
        rw [hkeep, List.mem_cons, ih h.2]
        constructor
        · rintro (rfl | ⟨ha, j, hj, hseen, hfirst⟩)
          · refine ⟨List.mem_cons_self, k, hc, hk, fun b hb _ => ?_⟩
            rcases List.mem_cons.mp hb with rfl | hb
            · exact le_rfl
            · exact (h.1 b hb).le
          · rw [List.mem_cons, not_or] at hseen
            refine ⟨List.mem_cons_of_mem c ha, j, hj, hseen.2, fun b hb hbj => ?_⟩
            rcases List.mem_cons.mp hb with rfl | hb
            · rw [hc] at hbj
              exact absurd (Option.some.inj hbj).symm hseen.1
            · exact hfirst b hb hbj
        · rintro ⟨ha, j, hj, hseen, hfirst⟩
          rcases List.mem_cons.mp ha with rfl | ha
          · exact .inl rfl
          · refine .inr ⟨ha, j, hj, ?_, fun b hb => hfirst b (List.mem_cons_of_mem c hb)⟩
            rw [List.mem_cons, not_or]
            refine ⟨?_, hseen⟩
            rintro rfl
            exact absurd (hfirst c List.mem_cons_self hc) (not_le.mpr (h.1 a ha))

end

section
variable {β ι σ τ : Type*} [LinearOrder σ] [LinearOrder τ] (owner : β → ι) (score : β → σ) (time : β → τ)

/-- The item of its owner that is least by score and then by time. -/
def IsBest (xs : List β) (a : β) : Prop :=
  a ∈ xs ∧ ∀ b ∈ xs, owner b = owner a → toLex (score a, time a) ≤ toLex (score b, time b)

variable {owner score time}

theorem IsBest.score_le {xs : List β} {a b : β} (h : IsBest owner score time xs a) (hb : b ∈ xs)
    (howner : owner b = owner a) : score a ≤ score b :=
  (Prod.Lex.toLex_le_toLex'.mp (h.2 b hb howner)).1

end

section
variable {β ι σ τ : Type*} [DecidableEq ι] [LinearOrder σ] [LinearOrder τ] (owner : β → ι) (score : β → σ)

/-- An owner's item gives way to one of a lower score. -/
def keepBest (best : List β) (b : β) : List β :=
  if best.any fun a => decide (owner a = owner b ∧ score a ≤ score b) then best
  else best.filter (fun a => owner a ≠ owner b) ++ [b]

def bests (xs : List β) : List β := xs.foldl (keepBest owner score) []

variable {owner score} {xs : List β} {a b : β}

theorem bests_snoc (xs : List β) (b : β) :
    bests owner score (xs ++ [b]) = keepBest owner score (bests owner score xs) b := by
  rw [bests, List.foldl_append]
  rfl

theorem keepBest_old (ha : a ∈ bests owner score xs) (howner : owner a = owner b)
    (hscore : score a ≤ score b) : bests owner score (xs ++ [b]) = bests owner score xs := by
  rw [bests_snoc]
  exact if_pos (List.any_eq_true.mpr ⟨a, ha, decide_eq_true ⟨howner, hscore⟩⟩)

theorem keepBest_new
    (h : ∀ a ∈ bests owner score xs, owner a = owner b → score b < score a) :
    bests owner score (xs ++ [b]) =
      (bests owner score xs).filter (fun a => owner a ≠ owner b) ++ [b] := by
  rw [bests_snoc]
  refine if_neg fun hany => ?_
  obtain ⟨a, ha, hold⟩ := List.any_eq_true.mp hany
  obtain ⟨howner, hscore⟩ := of_decide_eq_true hold
  exact absurd hscore (not_le.mpr (h a ha howner))

/-- The old item stays, or there is none and each of the owner has a higher score. -/
theorem keepBest_cases (owner : β → ι) (score : β → σ) (xs : List β) (b : β) :
    (∃ a ∈ bests owner score xs, owner a = owner b ∧ score a ≤ score b) ∨
      ∀ a ∈ bests owner score xs, owner a = owner b → score b < score a := by
  by_cases h : ∃ a ∈ bests owner score xs, owner a = owner b ∧ score a ≤ score b
  · exact .inl h
  · exact .inr fun a ha howner => not_le.mp fun hscore => h ⟨a, ha, howner, hscore⟩

theorem bests_owners (xs : List β) : ((bests owner score xs).map owner).Nodup := by
  induction xs using List.reverseRecOn with
  | nil => exact List.nodup_nil
  | append_singleton xs b ih =>
    rcases keepBest_cases owner score xs b with ⟨a, ha, howner, hscore⟩ | hnew
    · rw [keepBest_old ha howner hscore]
      exact ih
    · rw [keepBest_new hnew, List.map_append, List.nodup_append]
      refine ⟨ih.sublist (List.filter_sublist.map owner), List.nodup_singleton _, ?_⟩
      rintro _ hi _ hj rfl
      obtain ⟨a, ha, heq⟩ := List.mem_map.mp hi
      rw [List.map_singleton, List.mem_singleton] at hj
      exact of_decide_eq_true (List.mem_filter.mp ha).2 (heq.trans hj)

/-- Each owner has an item. -/
theorem bests_cover (owner : β → ι) (score : β → σ) (ha : a ∈ xs) : ∃ b ∈ bests owner score xs, owner b = owner a := by
  induction xs using List.reverseRecOn with
  | nil => cases ha
  | append_singleton xs c ih =>
    rw [List.mem_append, List.mem_singleton] at ha
    rcases keepBest_cases owner score xs c with ⟨b, hb, howner, hscore⟩ | hnew
    · rw [keepBest_old hb howner hscore]
      rcases ha with ha | rfl
      · exact ih ha
      · exact ⟨b, hb, howner⟩
    · rw [keepBest_new hnew]
      by_cases hca : owner c = owner a
      · exact ⟨c, by simp, hca⟩
      · rcases ha with ha | rfl
        · obtain ⟨b, hb, howner⟩ := ih ha
          refine ⟨b, List.mem_append_left _ (List.mem_filter.mpr ⟨hb, ?_⟩), howner⟩
          exact decide_eq_true fun heq => hca (heq.symm.trans howner)
        · exact absurd rfl hca

/-- What is kept is the best of its owner. -/
theorem mem_bests {time : β → τ} (h : xs.Pairwise fun a b => time a < time b) :
    a ∈ bests owner score xs ↔ IsBest owner score time xs a := by
  induction xs using List.reverseRecOn generalizing a with
  | nil => exact iff_of_false List.not_mem_nil fun hbest => absurd hbest.1 List.not_mem_nil
  | append_singleton xs b ih =>
    rw [List.pairwise_append] at h
    have hlast (c : β) (hc : c ∈ xs) : time c < time b := h.2.2 c hc b (List.mem_singleton_self b)
    have ih {a : β} := ih (a := a) h.1
    rcases keepBest_cases owner score xs b with ⟨c, hc, howner, hscore⟩ | hnew
    · rw [keepBest_old hc howner hscore, ih]
      have hcbest := ih.mp hc
      constructor
      · rintro hbest
        refine ⟨List.mem_append_left _ hbest.1, fun d hd hda => ?_⟩
        rcases List.mem_append.mp hd with hd | hd
        · exact hbest.2 d hd hda
        · obtain rfl := List.mem_singleton.mp hd
          have hac := hbest.score_le hcbest.1 (howner.trans hda)
          exact Prod.Lex.toLex_le_toLex'.mpr ⟨hac.trans hscore, fun _ => (hlast a hbest.1).le⟩
      · rintro ⟨ha, hleast⟩
        rcases List.mem_append.mp ha with ha | ha
        · exact ⟨ha, fun d hd => hleast d (List.mem_append_left _ hd)⟩
        · obtain rfl := List.mem_singleton.mp ha
          have hle := Prod.Lex.toLex_le_toLex'.mp (hleast c (List.mem_append_left _ hcbest.1) howner)
          exact absurd (hle.2 (le_antisymm hle.1 hscore)) (not_le.mpr (hlast c hcbest.1))
    · have hbelow (c : β) (hc : c ∈ xs) (hcb : owner c = owner b) : score b < score c := by
        obtain ⟨d, hd, hdc⟩ := bests_cover owner score hc
        exact (hnew d hd (hdc.trans hcb)).trans_le ((ih.mp hd).score_le hc hdc.symm)
      rw [keepBest_new hnew, List.mem_append, List.mem_filter, ih, List.mem_singleton,
        decide_eq_true_eq]
      constructor
      · rintro (⟨hbest, hab⟩ | rfl)
        · refine ⟨List.mem_append_left _ hbest.1, fun d hd hda => ?_⟩
          rcases List.mem_append.mp hd with hd | hd
          · exact hbest.2 d hd hda
          · obtain rfl := List.mem_singleton.mp hd
            exact absurd hda.symm hab
        · refine ⟨List.mem_append_right _ (List.mem_singleton_self a), fun d hd hda => ?_⟩
          rcases List.mem_append.mp hd with hd | hd
          · exact Prod.Lex.toLex_le_toLex.mpr (.inl (hbelow d hd hda))
          · rw [List.mem_singleton.mp hd]
      · rintro ⟨ha, hleast⟩
        rcases List.mem_append.mp ha with ha | ha
        · refine .inl ⟨⟨ha, fun d hd => hleast d (List.mem_append_left _ hd)⟩, fun hab => ?_⟩
          have hle := hleast b (List.mem_append_right _ (List.mem_singleton_self b)) hab.symm
          exact absurd (Prod.Lex.toLex_le_toLex'.mp hle).1 (not_le.mpr (hbelow a ha hab))
        · exact .inr (List.mem_singleton.mp ha)

end

end KeyedChoice
