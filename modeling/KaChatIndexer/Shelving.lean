import Mathlib.Data.List.Basic
import Mathlib.Data.List.Induction
import Mathlib.Data.List.Nodup

/-!
# Items that a withdrawal takes

A shelf holds every item put on it once. A withdrawal takes the items it names and is forgotten, so an
item that is put again afterwards stays.
-/
namespace Shelving

variable {κ ω : Type*}

inductive Act (κ ω : Type*) where
  | put (item : κ)
  | withdraw (w : ω)

/-- The item has been put since the last withdrawal that takes it. -/
def Stands (takes : ω → κ → Bool) (acts : List (Act κ ω)) (item : κ) : Prop :=
  ∃ before after, acts = before ++ .put item :: after ∧
    ∀ w, .withdraw w ∈ after → takes w item = false

theorem not_stands_nil {takes : ω → κ → Bool} (item : κ) : ¬ Stands takes [] item := by
  rintro ⟨before, after, heq, -⟩
  simp at heq

/-- What stands after one more act. -/
theorem stands_append {takes : ω → κ → Bool} {acts : List (Act κ ω)} {x : Act κ ω} {item : κ} :
    Stands takes (acts ++ [x]) item ↔
      x = .put item ∨ Stands takes acts item ∧ ∀ w, x = .withdraw w → takes w item = false := by
  constructor
  · rintro ⟨before, after, heq, hafter⟩
    rcases List.eq_nil_or_concat' after with rfl | ⟨after, y, rfl⟩
    · exact .inl (List.singleton_inj.mp (List.append_inj_right' heq rfl))
    · rw [← List.cons_append, ← List.append_assoc] at heq
      obtain rfl := List.singleton_inj.mp (List.append_inj_right' heq rfl)
      refine .inr ⟨⟨before, after, List.append_inj_left' heq rfl, fun w hw => ?_⟩, fun w hw => ?_⟩
      · exact hafter w (List.mem_append_left _ hw)
      · exact hafter w (by simp [hw])
  · rintro (rfl | ⟨⟨before, after, rfl, hafter⟩, hx⟩)
    · exact ⟨acts, [], rfl, nofun⟩
    · refine ⟨before, after ++ [x], by simp, fun w hw => ?_⟩
      rcases List.mem_append.mp hw with hw | hw
      · exact hafter w hw
      · exact hx w (List.mem_singleton.mp hw).symm

variable [DecidableEq κ] (takes : ω → κ → Bool)

def act (shelf : List κ) : Act κ ω → List κ
  | .put item => if item ∈ shelf then shelf else shelf ++ [item]
  | .withdraw w => shelf.filter fun item => !takes w item

def shelved (acts : List (Act κ ω)) : List κ := acts.foldl (act takes) []

variable {takes}

theorem act_put_stored {shelf : List κ} {item : κ} (h : item ∈ shelf) :
    act takes shelf (.put item) = shelf := by simp [act, h]

theorem act_put_new {shelf : List κ} {item : κ} (h : item ∉ shelf) :
    act takes shelf (.put item) = shelf ++ [item] := by simp [act, h]

@[simp] theorem shelved_append (acts : List (Act κ ω)) (x : Act κ ω) :
    shelved takes (acts ++ [x]) = act takes (shelved takes acts) x := by simp [shelved]

/-- No item is on the shelf twice. -/
theorem act_nodup {shelf : List κ} (h : shelf.Nodup) (x : Act κ ω) : (act takes shelf x).Nodup := by
  cases x with
  | put item =>
    by_cases hitem : item ∈ shelf
    · rwa [act_put_stored hitem]
    · rw [act_put_new hitem]
      simpa using h.concat hitem
  | withdraw w => exact h.filter _

theorem shelved_nodup (acts : List (Act κ ω)) : (shelved takes acts).Nodup := by
  induction acts using List.reverseRecOn with
  | nil => simp [shelved]
  | append_singleton acts x ih =>
    rw [shelved_append]
    exact act_nodup ih x

theorem mem_act {shelf : List κ} {x : Act κ ω} {item : κ} :
    item ∈ act takes shelf x ↔
      x = .put item ∨ item ∈ shelf ∧ ∀ w, x = .withdraw w → takes w item = false := by
  cases x with
  | put other =>
    simp only [act, Act.put.injEq, reduceCtorEq, false_implies, implies_true, and_true]
    split
    · next hother => exact ⟨.inr, fun h => h.elim (fun heq => heq ▸ hother) id⟩
    · rw [List.mem_append, List.mem_singleton, or_comm, eq_comm]
  | withdraw w => simp [act]

/-- What is on the shelf is what stands. -/
theorem mem_shelved {acts : List (Act κ ω)} {item : κ} :
    item ∈ shelved takes acts ↔ Stands takes acts item := by
  induction acts using List.reverseRecOn with
  | nil => simpa [shelved] using not_stands_nil item
  | append_singleton acts x ih => rw [shelved_append, mem_act, stands_append, ih]

end Shelving
