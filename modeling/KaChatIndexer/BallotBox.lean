import Mathlib.Data.List.Basic
import Mathlib.Data.List.Induction
import Mathlib.Order.Lattice

/-!
# Votes that can be withdrawn

A box holds one ballot at most. A ballot replaces an older one; a withdrawal empties the box and is
forgotten, so an old ballot that comes again afterwards counts again.
-/
namespace BallotBox

variable {α τ : Type*} [LinearOrder τ] (time : α → τ)

/-- A further act: `some a` casts `a`, `none` withdraws. -/
def act : Option α → Option α → Option α
  | _, none => none
  | none, some a => some a
  | some b, some a => if time b ≤ time a then some a else some b

@[simp] theorem act_none (b : Option α) : act time b none = none := by cases b <;> rfl

theorem act_cast (b a : α) :
    act time (some b) (some a) = if time b ≤ time a then some a else some b := rfl

def tally (acts : List (Option α)) : Option α := acts.foldl (act time) none

variable {time}

@[simp] theorem tally_append (acts : List (Option α)) (x : Option α) :
    tally time (acts ++ [x]) = act time (tally time acts) x := by simp [tally]

/-- What the box holds has been cast. -/
theorem tally_mem {acts : List (Option α)} {a : α} (h : tally time acts = some a) :
    some a ∈ acts := by
  induction acts using List.reverseRecOn with
  | nil => cases h
  | append_singleton acts x ih =>
    rw [tally_append] at h
    rw [List.mem_append, List.mem_singleton]
    cases x with
    | none => cases h
    | some c =>
      cases hold : tally time acts with
      | none => rw [hold] at h; exact .inr h.symm
      | some b =>
        rw [hold, act] at h
        split at h
        · exact .inr h.symm
        · exact .inl (ih (hold.trans h))

/-- The box is empty exactly when the last act is a withdrawal. -/
theorem tally_eq_none_iff {acts : List (Option α)} :
    tally time acts = none ↔ ∀ x ∈ acts.getLast?, x = none := by
  induction acts using List.reverseRecOn with
  | nil => simp [tally]
  | append_singleton acts x ih =>
    rw [tally_append, List.getLast?_append]
    cases x with
    | none => simp [act]
    | some a =>
      cases tally time acts with
      | none => simp [act]
      | some b =>
        have hne : act time (some b) (some a) ≠ none := by
          rw [act_cast]
          split <;> simp
        simp [hne]

/-- The newest ballot is in the box exactly when it has been cast since the last withdrawal. -/
theorem tally_eq_some_iff {acts : List (Option α)} {m : α}
    (hmax : ∀ a, some a ∈ acts → a ≠ m → time a < time m) :
    tally time acts = some m ↔ ∃ before after, acts = before ++ some m :: after ∧ none ∉ after := by
  induction acts using List.reverseRecOn with
  | nil => simp [tally]
  | append_singleton acts x ih =>
    have hmax' (a : α) (ha : some a ∈ acts) : a ≠ m → time a < time m :=
      hmax a (List.mem_append_left _ ha)
    rw [tally_append]
    cases x with
    | none =>
      refine iff_of_false nofun ?_
      rintro ⟨before, after, heq, hafter⟩
      rcases List.eq_nil_or_concat' after with rfl | ⟨after, y, rfl⟩
      · exact absurd (List.append_inj_right' heq rfl) (by simp)
      · rw [← List.cons_append, ← List.append_assoc] at heq
        obtain rfl := List.singleton_inj.mp (List.append_inj_right' heq rfl)
        simp at hafter
    | some a =>
      rcases eq_or_ne a m with rfl | hne
      · refine iff_of_true ?_ ⟨acts, [], rfl, List.not_mem_nil⟩
        cases hold : tally time acts with
        | none => rfl
        | some b =>
          have hle : time b ≤ time a := by
            rcases eq_or_ne b a with rfl | hb
            · exact le_rfl
            · exact le_of_lt (hmax' b (tally_mem hold) hb)
          exact if_pos hle
      · have hlt := hmax a (by simp) hne
        have hstep : act time (tally time acts) (some a) = some m ↔ tally time acts = some m := by
          cases hold : tally time acts with
          | none => simp [act, hne]
          | some b =>
            rcases eq_or_ne b m with rfl | hb
            · simp [act, not_le.mpr hlt]
            · rw [act_cast]
              split <;> simp [hne, hb]
        rw [hstep, ih hmax']
        constructor
        · rintro ⟨before, after, rfl, hafter⟩
          exact ⟨before, after ++ [some a], by simp, by simpa using hafter⟩
        · rintro ⟨before, after, heq, hafter⟩
          rcases List.eq_nil_or_concat' after with rfl | ⟨after, y, rfl⟩
          · have hlast := List.singleton_inj.mp (List.append_inj_right' heq rfl)
            exact absurd (Option.some.inj hlast) hne
          · rw [← List.cons_append, ← List.append_assoc] at heq
            exact ⟨before, after, List.append_inj_left' heq rfl, fun h => hafter (by simp [h])⟩

end BallotBox
