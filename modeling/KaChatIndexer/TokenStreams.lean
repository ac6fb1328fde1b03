import Mathlib.Data.List.Forall2
import Mathlib.Tactic.Common

/-!
# Streams of tokens

A reader that takes one token after the other off the front of a list accepts exactly the
concatenations of its tokens' forms, when a form is recognised whatever follows it.
-/
namespace TokenStreams

section
variable {α τ : Type*}

/-- Read tokens until nothing is left. -/
def readAll (next : List α → Option (τ × List α)) : ℕ → List α → Option (List τ)
  | _, [] => some []
  | 0, _ :: _ => none
  | fuel + 1, a :: rest =>
    (next (a :: rest)).bind fun (t, rest) => (readAll next fuel rest).map (t :: ·)

/-- The forms of the tokens: what the reader takes off, and all it needs to see. -/
structure Framed (next : List α → Option (τ × List α)) (form : List α → τ → Prop) : Prop where
  nonempty {p : List α} {t : τ} : form p t → p ≠ []
  read {p : List α} {t : τ} (rest : List α) : form p t → next (p ++ rest) = some (t, rest)
  split {b rest : List α} {t : τ} : next b = some (t, rest) → ∃ p, form p t ∧ b = p ++ rest

variable {next : List α → Option (τ × List α)} {form : List α → τ → Prop}

/-- What is read was written form by form. -/
theorem Framed.readAll_sound (h : Framed next form) {fuel : ℕ} {b : List α} {ts : List τ}
    (hread : readAll next fuel b = some ts) :
    ∃ pieces : List (List α), b = pieces.flatten ∧ List.Forall₂ form pieces ts := by
  induction fuel generalizing b ts with
  | zero =>
    cases b with
    | nil =>
      cases hread
      exact ⟨[], rfl, .nil⟩
    | cons a b => cases hread
  | succ fuel ih =>
    cases b with
    | nil =>
      cases hread
      exact ⟨[], rfl, .nil⟩
    | cons a b =>
      obtain ⟨⟨t, rest⟩, hnext, hmap⟩ := Option.bind_eq_some_iff.mp hread
      obtain ⟨ts', hrest, rfl⟩ := Option.map_eq_some_iff.mp hmap
      obtain ⟨p, hp, heq⟩ := h.split hnext
      obtain ⟨pieces, hpieces, hall⟩ := ih hrest
      exact ⟨p :: pieces, by rw [heq, hpieces, List.flatten_cons], .cons hp hall⟩

/-- What was written form by form is read, given fuel for every element. -/
theorem Framed.readAll_complete (h : Framed next form) {pieces : List (List α)} {ts : List τ}
    (hall : List.Forall₂ form pieces ts) {fuel : ℕ} (hfuel : pieces.flatten.length ≤ fuel) :
    readAll next fuel pieces.flatten = some ts := by
  induction hall generalizing fuel with
  | nil => cases fuel <;> rfl
  | @cons p t pieces ts hp _ ih =>
    have hpos := List.length_pos_iff.mpr (h.nonempty hp)
    rw [List.flatten_cons, List.length_append] at hfuel
    cases fuel with
    | zero => omega
    | succ fuel =>
      have hnext := h.read pieces.flatten hp
      rw [List.flatten_cons]
      cases hb : p ++ pieces.flatten with
      | nil => exact absurd (List.append_eq_nil_iff.mp hb).1 (h.nonempty hp)
      | cons a b =>
        rw [hb] at hnext
        have hrest : readAll next fuel pieces.flatten = some ts := ih (by omega)
        simp only [readAll, hnext, Option.bind_some, hrest, Option.map_some]

theorem Framed.readAll_iff (h : Framed next form) {fuel : ℕ} {b : List α}
    (hfuel : b.length ≤ fuel) (ts : List τ) :
    readAll next fuel b = some ts ↔
      ∃ pieces : List (List α), b = pieces.flatten ∧ List.Forall₂ form pieces ts := by
  refine ⟨h.readAll_sound, ?_⟩
  rintro ⟨pieces, rfl, hall⟩
  exact h.readAll_complete hall hfuel

end

end TokenStreams
