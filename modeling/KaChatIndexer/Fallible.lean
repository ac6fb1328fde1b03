import Mathlib.Data.List.Forall2
import Mathlib.Data.List.Induction

/-!
# Steps that can fail

A step gives a state or a fault. `Ends` says what holds of the one and of the other; it goes through
a sequence of steps as an invariant does.
-/
namespace Fallible

variable {ε α β σ : Type*} {faults faults' : ε → Prop}

/-- The result has the property, or the fault is one of those. -/
def Ends (faults : ε → Prop) (post : α → Prop) : Except ε α → Prop
  | .ok a => post a
  | .error e => faults e

theorem Ends.of_ok {post : α → Prop} {x : Except ε α} {a : α} (h : Ends faults post x)
    (hx : x = .ok a) : post a := by
  subst hx
  exact h

theorem Ends.of_error {post : α → Prop} {x : Except ε α} {e : ε} (h : Ends faults post x)
    (hx : x = .error e) : faults e := by
  subst hx
  exact h

/-- What holds of every result holds whatever the faults are. -/
theorem ends_of_ok {post : α → Prop} {x : Except ε α} (h : ∀ a, x = .ok a → post a) :
    Ends (fun _ => True) post x := by
  cases x with
  | ok a => exact h a rfl
  | error e => trivial

theorem Ends.imp {post post' : α → Prop} {x : Except ε α} (h : Ends faults post x)
    (hfaults : ∀ e, faults e → faults' e) (hpost : ∀ a, post a → post' a) :
    Ends faults' post' x := by
  cases x with
  | ok a => exact hpost a h
  | error e => exact hfaults e h

theorem Ends.and {post post' : α → Prop} {x : Except ε α} (h : Ends faults post x)
    (h' : Ends faults' post' x) :
    Ends (fun e => faults e ∧ faults' e) (fun a => post a ∧ post' a) x := by
  cases x with
  | ok a => exact ⟨h, h'⟩
  | error e => exact ⟨h, h'⟩

theorem Ends.bind {post : α → Prop} {post' : β → Prop} {x : Except ε α} {f : α → Except ε β}
    (h : Ends faults post x) (hf : ∀ a, post a → Ends faults post' (f a)) :
    Ends faults post' (x.bind f) := by
  cases x with
  | ok a => exact hf a h
  | error e => exact h

theorem Ends.map {post : α → Prop} {post' : β → Prop} {x : Except ε α} {f : α → β}
    (h : Ends faults post x) (hf : ∀ a, post a → post' (f a)) : Ends faults post' (x.map f) := by
  cases x with
  | ok a => exact hf a h
  | error e => exact h

theorem bind_ok_iff {x : Except ε α} {f : α → Except ε β} {b : β} :
    x.bind f = .ok b ↔ ∃ a, x = .ok a ∧ f a = .ok b := by
  cases x <;> simp [Except.bind]

theorem bind_ok {x : Except ε α} {f : α → Except ε β} {b : β} (h : x.bind f = .ok b) :
    ∃ a, x = .ok a ∧ f a = .ok b := by
  cases x with
  | ok a => exact ⟨a, rfl, h⟩
  | error e => cases h

theorem map_ok {x : Except ε α} {f : α → β} {b : β} (h : x.map f = .ok b) :
    ∃ a, x = .ok a ∧ f a = b := by
  cases x with
  | ok a => exact ⟨a, rfl, Except.ok.inj h⟩
  | error e => cases h

theorem mapM_ok {f : α → Except ε β} {as : List α} {bs : List β} :
    as.mapM f = .ok bs ↔ List.Forall₂ (fun a b => f a = .ok b) as bs := by
  induction as generalizing bs with
  | nil => cases bs <;> simp [pure, Except.pure]
  | cons a as ih =>
    rw [List.mapM_cons]
    constructor
    · intro h
      obtain ⟨b, hb, h⟩ := bind_ok h
      obtain ⟨bs', hbs, h⟩ := bind_ok h
      obtain rfl := Except.ok.inj h
      exact .cons hb (ih.mp hbs)
    · rintro (_ | ⟨hb, hbs⟩)
      rw [hb, ih.mpr hbs]
      rfl

/-- Two passes over a list fail no less than one pass that does both steps. -/
theorem mapM_mapM_ok {γ : Type*} {f : α → Except ε β} {g : β → Except ε γ} {as : List α}
    {cs : List γ} : (∃ bs, as.mapM f = .ok bs ∧ bs.mapM g = .ok cs) ↔
      List.Forall₂ (fun a c => ∃ b, f a = .ok b ∧ g b = .ok c) as cs := by
  simp only [mapM_ok]
  constructor
  · rintro ⟨bs, hf, hg⟩
    induction hf generalizing cs with
    | nil =>
      cases hg
      exact .nil
    | cons hb _ ih =>
      cases hg with
      | cons hc hrest => exact .cons ⟨_, hb, hc⟩ (ih hrest)
  · intro h
    induction h with
    | nil => exact ⟨[], .nil, .nil⟩
    | cons hab _ ih =>
      obtain ⟨b, hb, hc⟩ := hab
      obtain ⟨bs, hbs, hcs⟩ := ih
      exact ⟨b :: bs, .cons hb hbs, .cons hc hcs⟩

theorem mapM_of_ok {f : α → Except ε β} {g : α → β} {as : List α}
    (h : ∀ a ∈ as, f a = .ok (g a)) : as.mapM f = .ok (as.map g) := by
  induction as with
  | nil => rfl
  | cons a as ih =>
    rw [List.mapM_cons, h a (by simp), ih fun b hb => h b (by simp [hb])]
    rfl

/-- Nothing fails where no element does. -/
theorem mapM_total {f : α → Except ε β} {as : List α} (h : ∀ a ∈ as, ∃ b, f a = .ok b) :
    ∃ bs, as.mapM f = .ok bs := by
  induction as with
  | nil => exact ⟨[], rfl⟩
  | cons a as ih =>
    obtain ⟨b, hb⟩ := h a (by simp)
    obtain ⟨bs, hbs⟩ := ih fun c hc => h c (by simp [hc])
    refine ⟨b :: bs, ?_⟩
    rw [List.mapM_cons, hb, hbs]
    rfl

/-- There is a result, and it passes the test. -/
def okAnd (x : Except ε α) (test : α → Bool) : Bool :=
  match x with
  | .ok a => test a
  | .error _ => false

theorem exists_of_okAnd {x : Except ε α} {test : α → Bool} (h : okAnd x test = true) :
    ∃ a, x = .ok a ∧ test a = true := by
  cases x with
  | ok a => exact ⟨a, rfl, h⟩
  | error e => cases h

/-! ## Sequences -/

/-- One step after another, unless one of them fails. -/
def foldSteps (f : α → σ → Except ε σ) : List α → σ → Except ε σ
  | [], s => .ok s
  | a :: as, s => (f a s).bind (foldSteps f as)

variable {f : α → σ → Except ε σ}

theorem foldSteps_append (as bs : List α) (s : σ) :
    foldSteps f (as ++ bs) s = (foldSteps f as s).bind (foldSteps f bs) := by
  induction as generalizing s with
  | nil => rfl
  | cons a as ih =>
    rw [List.cons_append, foldSteps, foldSteps]
    cases f a s with
    | ok s' => exact ih s'
    | error e => rfl

/-- An invariant that knows the steps taken so far. -/
theorem ends_steps (inv : List α → σ → Prop) {as : List α}
    (hstep : ∀ done a rest, as = done ++ a :: rest → ∀ s, inv done s →
      Ends faults (inv (done ++ [a])) (f a s))
    {s : σ} (h : inv [] s) : Ends faults (inv as) (foldSteps f as s) := by
  have hfrom : ∀ rest done s, as = done ++ rest → inv done s →
      Ends faults (inv as) (foldSteps f rest s) := by
    intro rest
    induction rest with
    | nil =>
      intro done s has hs
      rw [List.append_nil] at has
      exact has ▸ hs
    | cons a rest ih =>
      intro done s has hs
      exact (hstep done a rest has s hs).bind fun s' hs' => ih (done ++ [a]) s' (by simp [has]) hs'
  exact hfrom as [] s rfl h

/-- An invariant along a sequence in which no step failed: it knows where each state comes from. -/
theorem steps_inv (inv : List α → σ → Prop) {as : List α} {s₀ : σ}
    (hstep : ∀ done a rest, as = done ++ a :: rest → ∀ s s', foldSteps f done s₀ = .ok s →
      inv done s → f a s = .ok s' → inv (done ++ [a]) s')
    (h : inv [] s₀) {s : σ} (hsteps : foldSteps f as s₀ = .ok s) : inv as s := by
  have hends : Ends (fun _ => True) (fun s => foldSteps f as s₀ = .ok s ∧ inv as s)
      (foldSteps f as s₀) := by
    refine ends_steps (fun done s => foldSteps f done s₀ = .ok s ∧ inv done s) ?_ ⟨rfl, h⟩
    intro done a rest has s ⟨hreached, hinv⟩
    refine ends_of_ok fun s' hs' => ⟨?_, hstep done a rest has s s' hreached hinv hs'⟩
    rw [foldSteps_append, hreached, Except.bind, foldSteps, hs']
    rfl
  exact (hends.of_ok hsteps).2

/-- An invariant of every step. -/
theorem ends_fold (inv : σ → Prop) {as : List α}
    (hstep : ∀ a ∈ as, ∀ s, inv s → Ends faults inv (f a s)) {s : σ} (h : inv s) :
    Ends faults inv (foldSteps f as s) :=
  ends_steps (fun _ => inv) (fun _ a _ has => hstep a (by simp [has])) h

/-- A test of every step that is taken. -/
def allSteps (f : α → σ → Except ε σ) (ok : List α → σ → α → Bool) : List α → List α → σ → Bool
  | _, [], _ => true
  | done, a :: as, s => ok done s a &&
      match f a s with
      | .ok s' => allSteps f ok (done ++ [a]) as s'
      | .error _ => true

theorem of_allSteps {ok : List α → σ → α → Bool} {as : List α} {s₀ : σ}
    (h : allSteps f ok [] as s₀ = true) {done : List α} {a : α} {rest : List α} {s : σ}
    (has : as = done ++ a :: rest) (hs : foldSteps f done s₀ = .ok s) : ok done s a = true := by
  have hfrom : ∀ done before s₀, allSteps f ok before (done ++ a :: rest) s₀ = true →
      foldSteps f done s₀ = .ok s → ok (before ++ done) s a = true := by
    intro done
    induction done with
    | nil =>
      intro before s₀ h hs
      obtain rfl := Except.ok.inj hs
      rw [List.append_nil]
      exact (Bool.and_eq_true_iff.mp h).1
    | cons b done ih =>
      intro before s₀ h hs
      obtain ⟨s₁, hb, hs⟩ := bind_ok hs
      have hrest := (Bool.and_eq_true_iff.mp h).2
      rw [hb] at hrest
      rw [List.append_cons]
      exact ih _ s₁ hrest hs
  exact hfrom done [] s₀ (has ▸ h) hs

end Fallible
