import Mathlib.Data.List.Perm.Basic

/-!
# Confluence of gated steps

Items are applied to a state, each only where the state admits it. When two admitted items may be
swapped and neither shuts the other out, all admissible orders of the same items end alike, and a
worklist that retries what was not yet admitted applies everything that some order can.
-/
namespace GatedConfluence

section
variable {σ α : Type*} (ready : σ → α → Prop) (step : σ → α → σ)

def run (s : σ) (as : List α) : σ := as.foldl step s

/-- Each item is admitted where it is applied. -/
def ReadyRun : σ → List α → Prop
  | _, [] => True
  | s, a :: as => ready s a ∧ ReadyRun (step s a) as

variable {ready step}

theorem run_append (s : σ) (as bs : List α) :
    run step s (as ++ bs) = run step (run step s as) bs := List.foldl_append ..

theorem readyRun_append {s : σ} {as bs : List α} : ReadyRun ready step s (as ++ bs) ↔
    ReadyRun ready step s as ∧ ReadyRun ready step (run step s as) bs := by
  induction as generalizing s with
  | nil => simp [ReadyRun, run]
  | cons a as ih => rw [List.cons_append, ReadyRun, ih, ReadyRun, and_assoc]; rfl

/-- Two admitted items commute up to `rel`, in every state that `inv` allows together with the
items still to apply. -/
structure Gated (ready : σ → α → Prop) (step : σ → α → σ) (rel : σ → σ → Prop)
    (inv : σ → List α → Prop) : Prop where
  equiv : Equivalence rel
  perm {s : σ} {as bs : List α} : as.Perm bs → inv s as → inv s bs
  keep {s : σ} {a : α} {as : List α} : inv s (a :: as) → ready s a → inv (step s a) as
  ready_congr {s s' : σ} {a : α} {as : List α} : rel s s' → inv s (a :: as) → inv s' (a :: as) →
    ready s a → ready s' a
  step_congr {s s' : σ} {a : α} {as : List α} : rel s s' → inv s (a :: as) → inv s' (a :: as) →
    ready s a → rel (step s a) (step s' a)
  persist {s : σ} {a b : α} {as : List α} : inv s (a :: b :: as) → ready s a → ready s b →
    ready (step s a) b
  swap {s : σ} {a b : α} {as : List α} : inv s (a :: b :: as) → ready s a → ready s b →
    rel (step (step s a) b) (step (step s b) a)

variable {rel : σ → σ → Prop} {inv : σ → List α → Prop}

theorem Gated.run_congr (G : Gated ready step rel inv) {s s' : σ} {as : List α} (h : rel s s')
    (hs : inv s as) (hs' : inv s' as) (hrun : ReadyRun ready step s as) :
    ReadyRun ready step s' as ∧ rel (run step s as) (run step s' as) := by
  induction as generalizing s s' with
  | nil => exact ⟨trivial, h⟩
  | cons a as ih =>
    have ha := G.ready_congr h hs hs' hrun.1
    obtain ⟨hrun', hrel⟩ := ih (G.step_congr h hs hs' hrun.1) (G.keep hs hrun.1) (G.keep hs' ha) hrun.2
    exact ⟨⟨ha, hrun'⟩, hrel⟩

/-- An item admitted at the start may be applied first. -/
theorem Gated.front (G : Gated ready step rel inv) {s : σ} {a : α} {pre post : List α}
    (hs : inv s (pre ++ a :: post)) (ha : ready s a)
    (hrun : ReadyRun ready step s (pre ++ a :: post)) :
    ReadyRun ready step (step s a) (pre ++ post) ∧
      rel (run step (step s a) (pre ++ post)) (run step s (pre ++ a :: post)) := by
  induction pre generalizing s with
  | nil => exact ⟨hrun.2, G.equiv.refl _⟩
  | cons b pre ih =>
    have hb : ready s b := hrun.1
    have hba : inv s (b :: a :: (pre ++ post)) := G.perm (List.Perm.cons b List.perm_middle) hs
    have hab : inv s (a :: b :: (pre ++ post)) := G.perm (List.Perm.swap a b _) hba
    have hb' : ready (step s a) b := G.persist hab ha hb
    have ha' : ready (step s b) a := G.persist hba hb ha
    obtain ⟨htail, hrel⟩ := ih (G.keep hs hb) ha' hrun.2
    obtain ⟨htail', hrel'⟩ := G.run_congr (G.swap hba hb ha) (G.keep (G.keep hba hb) ha')
      (G.keep (G.keep hab ha) hb') htail
    exact ⟨⟨hb', htail'⟩, G.equiv.trans (G.equiv.symm hrel') hrel⟩

/-- What an admissible order leaves after some of its items were applied, in an admissible order of
their own, can still be applied, and ends where the whole order does. -/
theorem Gated.completion (G : Gated ready step rel inv) {s : σ} {done rest order : List α}
    (hs : inv s order) (hperm : (done ++ rest).Perm order) (hdone : ReadyRun ready step s done)
    (horder : ReadyRun ready step s order) :
    ∃ order', order'.Perm rest ∧ ReadyRun ready step (run step s done) order' ∧
      rel (run step (run step s done) order') (run step s order) := by
  induction done generalizing s order with
  | nil => exact ⟨order, hperm.symm, horder, G.equiv.refl _⟩
  | cons d done ih =>
    obtain ⟨pre, post, rfl⟩ := List.append_of_mem (hperm.subset List.mem_cons_self)
    obtain ⟨hfront, hrel⟩ := G.front hs hdone.1 horder
    obtain ⟨order', hperm', hrun', hrel'⟩ := ih (G.keep (G.perm List.perm_middle hs) hdone.1)
      (hperm.trans List.perm_middle).cons_inv hdone.2 hfront
    exact ⟨order', hperm', hrun', G.equiv.trans hrel' hrel⟩

/-- Two admissible orders of the same items end alike. -/
theorem Gated.confluent (G : Gated ready step rel inv) {s : σ} {as bs : List α} (hs : inv s bs)
    (hperm : as.Perm bs) (has : ReadyRun ready step s as) (hbs : ReadyRun ready step s bs) :
    rel (run step s as) (run step s bs) := by
  have hsplit : (as ++ []).Perm bs := by rwa [List.append_nil]
  obtain ⟨order, hnil, -, hrel⟩ := G.completion hs hsplit has hbs
  rw [List.perm_nil.mp hnil] at hrel
  exact hrel

/-- A system that shows its state through `view` is gated where the one seen is. -/
theorem Gated.comap {τ : Type*} {step' : τ → α → τ} (G : Gated ready step rel inv) (view : τ → σ)
    (hview : ∀ x a, view (step' x a) = step (view x) a) :
    Gated (fun x a => ready (view x) a) step' (fun x y => rel (view x) (view y))
      (fun x as => inv (view x) as) where
  equiv := G.equiv.comap view
  perm := G.perm
  keep h ha := hview .. ▸ G.keep h ha
  ready_congr := G.ready_congr
  step_congr h hs hs' ha := by
    rw [hview, hview]
    exact G.step_congr h hs hs' ha
  persist h ha hb := hview .. ▸ G.persist h ha hb
  swap h ha hb := by
    simp only [hview]
    exact G.swap h ha hb

theorem run_comap {τ : Type*} {step' : τ → α → τ} {view : τ → σ}
    (hview : ∀ x a, view (step' x a) = step (view x) a) (x : τ) (as : List α) :
    view (run step' x as) = run step (view x) as := by
  induction as generalizing x with
  | nil => rfl
  | cons a as ih =>
    have htail := ih (step' x a)
    rwa [hview] at htail

variable (ready) in
theorem readyRun_comap {τ : Type*} {step' : τ → α → τ} {view : τ → σ}
    (hview : ∀ x a, view (step' x a) = step (view x) a) {x : τ} {as : List α} :
    ReadyRun (fun x a => ready (view x) a) step' x as ↔ ReadyRun ready step (view x) as := by
  induction as generalizing x with
  | nil => exact Iff.rfl
  | cons a as ih => rw [ReadyRun, ih, hview, ReadyRun]

end

section
variable {σ α : Type*} (ready : σ → α → Bool) (step : σ → α → σ)

/-- Apply an item or put it back: the state, what was put back, and whether anything moved. -/
def tryItem (p : σ × List α × Bool) (a : α) : σ × List α × Bool :=
  if ready p.1 a then (step p.1 a, p.2.1, true) else (p.1, p.2.1 ++ [a], p.2.2)

def pass (s : σ) (pending : List α) : σ × List α × Bool :=
  pending.foldl (tryItem ready step) (s, [], false)

theorem foldl_tryItem (pending back : List α) (s : σ) (moved : Bool) :
    ∃ done rest, pending.foldl (tryItem ready step) (s, back, moved) =
        (run step s done, back ++ rest, moved || !done.isEmpty) ∧
      (done ++ rest).Perm pending ∧ ReadyRun (fun s a => ready s a = true) step s done ∧
      (done = [] → ∀ a ∈ rest, ready s a = false) := by
  induction pending generalizing s back moved with
  | nil => exact ⟨[], [], by simp [run], .nil, trivial, by simp⟩
  | cons a pending ih =>
    rw [List.foldl_cons]
    cases ha : ready s a with
    | true =>
      have htry : tryItem ready step (s, back, moved) a = (step s a, back, true) := if_pos ha
      obtain ⟨done, rest, hout, hperm, hdone, -⟩ := ih back (step s a) true
      refine ⟨a :: done, rest, ?_, hperm.cons a, ⟨ha, hdone⟩, by simp⟩
      rw [htry, hout]
      simp [run]
    | false =>
      have htry : tryItem ready step (s, back, moved) a = (s, back ++ [a], moved) :=
        if_neg (by simp [ha])
      obtain ⟨done, rest, hout, hperm, hdone, hstuck⟩ := ih (back ++ [a]) s moved
      refine ⟨done, a :: rest, ?_, List.perm_middle.trans (hperm.cons a), hdone, ?_⟩
      · rw [htry, hout]
        simp
      · intro hnil b hb
        rcases List.mem_cons.mp hb with rfl | hb
        · exact ha
        · exact hstuck hnil b hb

theorem pass_spec (s : σ) (pending : List α) :
    ∃ done rest, pass ready step s pending = (run step s done, rest, !done.isEmpty) ∧
      (done ++ rest).Perm pending ∧ ReadyRun (fun s a => ready s a = true) step s done ∧
      (done = [] → ∀ a ∈ rest, ready s a = false) := by
  simpa [pass] using foldl_tryItem ready step pending [] s false

theorem pass_shrinks {s : σ} {pending : List α} (h : (pass ready step s pending).2.2 = true) :
    (pass ready step s pending).2.1.length < pending.length := by
  obtain ⟨done, rest, hout, hperm, -⟩ := pass_spec ready step s pending
  rw [hout] at h ⊢
  have hlen := hperm.length_eq
  have hdone : 0 < done.length := List.length_pos_iff.mpr (by simpa using h)
  rw [List.length_append] at hlen
  dsimp only
  omega

/-- Pass over what is pending until nothing moves or nothing is left. -/
def passes (s : σ) (pending : List α) : σ × List α :=
  if _h : (pass ready step s pending).2.2 = true ∧ (pass ready step s pending).2.1 ≠ [] then
    passes (pass ready step s pending).1 (pass ready step s pending).2.1
  else ((pass ready step s pending).1, (pass ready step s pending).2.1)
termination_by pending.length
decreasing_by exact pass_shrinks ready step _h.1

/-- The passes apply items of the list in an admissible order, and leave only items that the last
state does not admit. -/
theorem passes_spec (s : σ) (pending : List α) :
    ∃ done rest, passes ready step s pending = (run step s done, rest) ∧
      (done ++ rest).Perm pending ∧ ReadyRun (fun s a => ready s a = true) step s done ∧
      ∀ a ∈ rest, ready (run step s done) a = false := by
  induction hn : pending.length using Nat.strongRecOn generalizing s pending with
  | ind n ih =>
    obtain ⟨done, rest, hout, hperm, hdone, hstuck⟩ := pass_spec ready step s pending
    rw [passes]
    simp only [hout]
    split
    · next hmore =>
      have hlt : rest.length < n := by
        have hshrinks := @pass_shrinks _ _ ready step s pending (by rw [hout]; exact hmore.1)
        rwa [hout, hn] at hshrinks
      obtain ⟨done', rest', hout', hperm', hdone', hstuck'⟩ :=
        ih rest.length hlt (run step s done) rest rfl
      refine ⟨done ++ done', rest', ?_, ?_, readyRun_append.mpr ⟨hdone, hdone'⟩, ?_⟩
      · rw [hout', run_append]
      · rw [List.append_assoc]
        exact (hperm'.append_left done).trans hperm
      · rwa [run_append]
    · next hstop =>
      refine ⟨done, rest, rfl, hperm, hdone, ?_⟩
      rw [not_and_or] at hstop
      rcases hstop with hstop | hstop
      · have hnil : done = [] := by simpa using hstop
        rw [hnil]
        exact hstuck hnil
      · simp [not_not.mp hstop]

variable {ready step} {rel : σ → σ → Prop} {inv : σ → List α → Prop}

/-- Where some order admits every item, the passes apply them all and end where it does. -/
theorem Gated.passes_complete (G : Gated (fun s a => ready s a = true) step rel inv) {s : σ}
    {pending order : List α} (hs : inv s order) (hperm : pending.Perm order)
    (horder : ReadyRun (fun s a => ready s a = true) step s order) :
    (passes ready step s pending).2 = [] ∧
      rel (passes ready step s pending).1 (run step s order) := by
  obtain ⟨done, rest, hout, hsplit, hdone, hstuck⟩ := passes_spec ready step s pending
  obtain ⟨order', hperm', hrun', hrel⟩ := G.completion hs (hsplit.trans hperm) hdone horder
  rw [hout]
  cases order' with
  | nil => exact ⟨List.nil_perm.mp hperm', hrel⟩
  | cons a order' =>
    have hnot := hstuck a (hperm'.subset List.mem_cons_self)
    exact absurd hrun'.1 (by simp [hnot])

end

end GatedConfluence
