import KaChatIndexer.Interleaving

/-!
# Interrupted programs

A program of atomic statements stops between two of them and is started again from the state it left.
Where the second start passes idly through what was done, it ends as one run would have; where it
passes idly to an end instead, what was left to do is lost.
-/
namespace Interleaving.Prog

variable {σ ε α β : Type}

/-- The program stopped after at most `n` statements: those that ran, the state, and what was left. -/
def stop : ℕ → Prog σ ε α → σ → List ε × σ × Prog σ ε α
  | n + 1, step ev write next, s =>
    let stopped := (next s).stop n (write s)
    (ev :: stopped.1, stopped.2)
  | _, p, s => ([], s, p)

/-- Started in `s`, the program has run the statements `ran`, stands in `t` and has `left` to do. -/
inductive Stands : Prog σ ε α → σ → List ε → σ → Prog σ ε α → Prop
  | here (p : Prog σ ε α) (s : σ) : Stands p s [] s p
  | step {ev : ε} {write : σ → σ} {next : σ → Prog σ ε α} {s t : σ} {ran : List ε}
      {left : Prog σ ε α} (h : Stands (next s) (write s) ran t left) :
      Stands (step ev write next) s (ev :: ran) t left

/-- From one point to another, no statement of the program changes the state. -/
inductive Idles (t : σ) : Prog σ ε α → Prog σ ε α → Prop
  | refl (p : Prog σ ε α) : Idles t p p
  | step {ev : ε} {write : σ → σ} {next : σ → Prog σ ε α} {q : Prog σ ε α} (hwrite : write t = t)
      (h : Idles t (next t) q) : Idles t (step ev write next) q

/-- Both programs pass idly to one point. -/
def Meets (t : σ) (p q : Prog σ ε α) : Prop := ∃ m, p.Idles t m ∧ q.Idles t m

/-- Started again wherever it stopped, the program passes idly to where it was. -/
def Resumable (p : Prog σ ε α) (s : σ) : Prop :=
  ∀ ran t left, p.Stands s ran t left → p.Meets t left

variable {p q : Prog σ ε α} {k : α → Prog σ ε β} {s t : σ} {ran : List ε}

/-- Whether what was left is lost: if not, the second start meets it; if so, it passes to an end, and
what was left would have changed the state. -/
structure LostIff (p left : Prog σ ε Unit) (t : σ) (lost : Prop) : Prop where
  kept : ¬ lost → p.Meets t left
  gone : lost → p.Idles t (done ()) ∧ (left.alone t).2 ≠ t

/-! ## Where a program stands -/

theorem stands_stop (n : ℕ) (p : Prog σ ε α) (s : σ) :
    p.Stands s (p.stop n s).1 (p.stop n s).2.1 (p.stop n s).2.2 := by
  induction n generalizing p s with
  | zero => cases p <;> exact .here _ _
  | succ n ih =>
    cases p with
    | done a => exact .here _ _
    | step ev write next => exact .step (ih (next s) (write s))

theorem Stands.alone {left : Prog σ ε α} (h : p.Stands s ran t left) : p.alone s = left.alone t := by
  induction h with
  | here => rfl
  | step _ ih => exact ih

theorem stands_done {a : α} {left : Prog σ ε α} (h : (done a).Stands s ran t left) :
    ran = [] ∧ t = s ∧ left = done a := by
  cases h
  exact ⟨rfl, rfl, rfl⟩

theorem stands_step {ev : ε} {write : σ → σ} {next : σ → Prog σ ε α} {left : Prog σ ε α}
    (h : (step ev write next).Stands s ran t left) :
    (ran = [] ∧ t = s ∧ left = step ev write next) ∨
      ∃ rest, ran = ev :: rest ∧ (next s).Stands (write s) rest t left := by
  cases h with
  | here => exact .inl ⟨rfl, rfl, rfl⟩
  | step h => exact .inr ⟨_, rfl, h⟩

theorem stands_stmt {ev : ε} {g : σ → α × σ} {left : Prog σ ε β}
    (h : (stmt ev g >>= k).Stands s ran t left) :
    (ran = [] ∧ t = s ∧ left = stmt ev g >>= k) ∨
      ∃ rest, ran = ev :: rest ∧ (k (g s).1).Stands (g s).2 rest t left := stands_step h

theorem stands_query {ev : ε} {g : σ → α} {left : Prog σ ε β}
    (h : (query ev g >>= k).Stands s ran t left) :
    (ran = [] ∧ t = s ∧ left = query ev g >>= k) ∨
      ∃ rest, ran = ev :: rest ∧ (k (g s)).Stands s rest t left := stands_step h

theorem stands_execute {ev : ε} {write : σ → σ} {k : Unit → Prog σ ε β} {left : Prog σ ε β}
    (h : (execute ev write >>= k).Stands s ran t left) :
    (ran = [] ∧ t = s ∧ left = execute ev write >>= k) ∨
      ∃ rest, ran = ev :: rest ∧ (k ()).Stands (write s) rest t left := stands_step h

/-- A program stopped in its first part, or that part has ended. -/
theorem stands_bind {left : Prog σ ε β} (h : (p >>= k).Stands s ran t left) :
    (∃ left', p.Stands s ran t left' ∧ left = left' >>= k) ∨
      ∃ ran₁ ran₂, ran = ran₁ ++ ran₂ ∧ p.Stands s ran₁ (p.alone s).2 (done (p.alone s).1) ∧
        (k (p.alone s).1).Stands (p.alone s).2 ran₂ t left := by
  induction p generalizing s ran with
  | done a => exact .inr ⟨[], ran, rfl, .here _ _, h⟩
  | step ev write next ih =>
    rcases stands_step h with ⟨rfl, rfl, rfl⟩ | ⟨rest, rfl, hrest⟩
    · exact .inl ⟨_, .here _ _, rfl⟩
    · rcases ih s hrest with ⟨left', hleft, rfl⟩ | ⟨ran₁, ran₂, rfl, hfirst, hsecond⟩
      · exact .inl ⟨left', .step hleft, rfl⟩
      · exact .inr ⟨ev :: ran₁, ran₂, rfl, .step hfirst, hsecond⟩

/-- What every statement keeps still holds where the program stands. -/
theorem Stands.keeps {P : σ → Prop} {Q : ε → (σ → σ) → Prop} {left : Prog σ ε α}
    (h : p.Stands s ran t left) (hp : p.All Q)
    (hkeeps : ∀ ev write, Q ev write → ∀ s, P s → P (write s)) (hs : P s) : P t := by
  induction h with
  | here => exact hs
  | step _ ih => exact ih (hp.2 _) (hkeeps _ _ hp.1 _ hs)

theorem Stands.frame {τ : Type} {ok : ε → Prop} {f : σ → τ} {left : Prog σ ε α}
    (h : p.Stands s ran t left) (hp : p.Frame ok f) : f t = f s := by
  induction h with
  | here => rfl
  | step _ ih => exact (ih (hp.2 _).2).trans (hp.2 _).1

theorem Frame.comp {τ υ : Type} {ok : ε → Prop} {f : σ → τ} (hp : p.Frame ok f) (g : τ → υ) :
    p.Frame ok fun s => g (f s) := by
  induction p with
  | done a => trivial
  | step ev write next ih =>
    exact ⟨hp.1, fun s => ⟨congrArg g (hp.2 s).1, ih s (hp.2 s).2⟩⟩

theorem Stands.labels {ok : ε → Prop} {left : Prog σ ε α} (h : p.Stands s ran t left)
    (hp : p.All fun ev _ => ok ev) : ∀ ev ∈ ran, ok ev := by
  induction h with
  | here => simp
  | step _ ih => exact List.forall_mem_cons.mpr ⟨hp.1, ih (hp.2 _)⟩

theorem Stands.all {Q : ε → (σ → σ) → Prop} {left : Prog σ ε α} (h : p.Stands s ran t left)
    (hp : p.All Q) : left.All Q := by
  induction h with
  | here => exact hp
  | step _ ih => exact ih (hp.2 _)

theorem stands_beside {δ : Type} {derive : ε → σ → σ → δ → δ} {s t : σ × δ}
    {left : Prog (σ × δ) ε α} (h : (p.beside derive).Stands s ran t left) :
    ∃ q, left = q.beside derive ∧ p.Stands s.1 ran t.1 q := by
  induction p generalizing s ran with
  | done a =>
    obtain ⟨rfl, rfl, rfl⟩ := stands_done h
    exact ⟨done a, rfl, .here _ _⟩
  | step ev write next ih =>
    rcases stands_step h with ⟨rfl, rfl, rfl⟩ | ⟨rest, rfl, hrest⟩
    · exact ⟨_, rfl, .here _ _⟩
    · obtain ⟨q, rfl, hq⟩ := ih s.1 hrest
      exact ⟨q, rfl, .step hq⟩

/-! ## Passing idly -/

theorem Idles.alone (h : p.Idles t q) : p.alone t = q.alone t := by
  induction h with
  | refl => rfl
  | step hwrite _ ih => rw [alone_step, hwrite, ih]

theorem Idles.trans {m : Prog σ ε α} (h : p.Idles t m) (h' : m.Idles t q) : p.Idles t q := by
  induction h with
  | refl => exact h'
  | step hwrite _ ih => exact .step hwrite (ih h')

theorem Idles.bind (h : p.Idles t q) : (p >>= k).Idles t (q >>= k) := by
  induction h with
  | refl => exact .refl _
  | step hwrite _ ih => exact .step hwrite ih

theorem Idles.stmt {ev : ε} {g : σ → α × σ} {a : α} (h : g t = (a, t)) :
    (stmt ev g >>= k).Idles t (k a) := by
  refine .step (by rw [h]) ?_
  show (k (g t).1).Idles t (k a)
  rw [h]
  exact .refl _

theorem Idles.query {ev : ε} {g : σ → α} {a : α} (h : g t = a) : (query ev g >>= k).Idles t (k a) := by
  refine .step rfl ?_
  show (k (g t)).Idles t (k a)
  rw [h]
  exact .refl _

theorem Idles.execute {ev : ε} {write : σ → σ} {k : Unit → Prog σ ε β} (h : write t = t) :
    (execute ev write >>= k).Idles t (k ()) := .step h (.refl _)

/-- A program whose statements change nothing passes to its end. -/
theorem idles_end (hp : p.All fun _ write => ∀ s, write s = s) : p.Idles t (done (p.alone t).1) := by
  induction p with
  | done a => exact .refl _
  | step ev write next ih =>
    refine .step (hp.1 t) ?_
    rw [alone_step, hp.1]
    exact ih t (hp.2 t)

theorem Idles.beside {δ : Type} {derive : ε → σ → σ → δ → δ} {s : σ × δ} (h : p.Idles s.1 q)
    (hderive : ∀ ev, derive ev s.1 s.1 s.2 = s.2) : (p.beside derive).Idles s (q.beside derive) := by
  induction h with
  | refl => exact .refl _
  | @step ev write next q hwrite _ ih =>
    exact .step (show (write s.1, derive ev s.1 (write s.1) s.2) = s by rw [hwrite, hderive]) ih

theorem Meets.alone (h : p.Meets t q) : p.alone t = q.alone t := by
  obtain ⟨m, hp, hq⟩ := h
  rw [hp.alone, hq.alone]

theorem Idles.meets (h : p.Idles t q) : p.Meets t q := ⟨q, h, .refl q⟩

theorem Idles.later {m : Prog σ ε α} (h : p.Idles t m) (hm : m.Meets t q) : p.Meets t q := by
  obtain ⟨end', hend, hq⟩ := hm
  exact ⟨end', h.trans hend, hq⟩

theorem Meets.bind (h : p.Meets t q) : (p >>= k).Meets t (q >>= k) := by
  obtain ⟨m, hp, hq⟩ := h
  exact ⟨m >>= k, hp.bind, hq.bind⟩

theorem Meets.beside {δ : Type} {derive : ε → σ → σ → δ → δ} {s : σ × δ} (h : p.Meets s.1 q)
    (hderive : ∀ ev, derive ev s.1 s.1 s.2 = s.2) : (p.beside derive).Meets s (q.beside derive) := by
  obtain ⟨m, hp, hq⟩ := h
  exact ⟨m.beside derive, hp.beside hderive, hq.beside hderive⟩

/-! ## Resuming -/

/-- Started again, the program ends as one run would have. -/
theorem Meets.resumed {left : Prog σ ε α} (h : p.Meets t left) (hstands : p.Stands s ran t left) :
    p.alone t = p.alone s := h.alone.trans hstands.alone.symm

/-- Where the second start only passes to an end, what was left to do must change nothing. -/
theorem Idles.resumed_iff {a : α} {left : Prog σ ε α} (h : p.Idles t (done a))
    (hstands : p.Stands s ran t left) :
    (p.alone t).2 = (p.alone s).2 ↔ (left.alone t).2 = t := by
  rw [h.alone, hstands.alone, alone_done]
  exact eq_comm

theorem resumable_done (a : α) : (done a : Prog σ ε α).Resumable s := by
  intro ran t left h
  obtain ⟨-, rfl, rfl⟩ := stands_done h
  exact (Idles.refl _).meets

/-- A last statement that is done already changes nothing. -/
theorem resumable_last {a : α} {ev : ε} {write : σ → σ} {next : σ → Prog σ ε α}
    (hnext : ∀ t, next t = done a) (hwrite : write (write s) = write s) :
    (step ev write next).Resumable s := by
  intro ran t left h
  rcases stands_step h with ⟨-, rfl, rfl⟩ | ⟨rest, -, hrest⟩
  · exact (Idles.refl _).meets
  · rw [hnext] at hrest
    obtain ⟨-, rfl, rfl⟩ := stands_done hrest
    exact Idles.meets (.step hwrite (by rw [hnext]; exact .refl _))

/-- A statement that every later state has done already, with the same result. -/
theorem resumable_stmt {ev : ε} {g : σ → α × σ} (hrest : (k (g s).1).Resumable (g s).2)
    (hlater : ∀ ran t left, (k (g s).1).Stands (g s).2 ran t left → g t = ((g s).1, t)) :
    (stmt ev g >>= k).Resumable s := by
  intro ran t left h
  rcases stands_stmt h with ⟨-, rfl, rfl⟩ | ⟨rest, -, h⟩
  · exact (Idles.refl _).meets
  · exact Idles.later (Idles.stmt (hlater rest t left h)) (hrest rest t left h)

theorem resumable_query {ev : ε} {g : σ → α} (hrest : (k (g s)).Resumable s)
    (hlater : ∀ ran t left, (k (g s)).Stands s ran t left → g t = g s) :
    (query ev g >>= k).Resumable s := by
  intro ran t left h
  rcases stands_query h with ⟨-, rfl, rfl⟩ | ⟨rest, -, h⟩
  · exact (Idles.refl _).meets
  · exact Idles.later (Idles.query (hlater rest t left h)) (hrest rest t left h)

theorem resumable_execute {ev : ε} {write : σ → σ} {k : Unit → Prog σ ε β}
    (hrest : (k ()).Resumable (write s))
    (hlater : ∀ ran t left, (k ()).Stands (write s) ran t left → write t = t) :
    (execute ev write >>= k).Resumable s := by
  intro ran t left h
  rcases stands_execute h with ⟨-, rfl, rfl⟩ | ⟨rest, -, h⟩
  · exact (Idles.refl _).meets
  · exact Idles.later (Idles.execute (hlater rest t left h)) (hrest rest t left h)

/-- A program whose statements change nothing is where it was. -/
theorem Stands.idle {left : Prog σ ε α} (h : p.Stands s ran t left)
    (hp : p.All fun _ write => ∀ s, write s = s) : t = s ∧ p.Idles t left := by
  induction h with
  | here => exact ⟨rfl, .refl _⟩
  | step _ ih =>
    obtain ⟨rfl, hidle⟩ := ih (hp.2 _)
    rw [hp.1] at hidle ⊢
    exact ⟨rfl, .step (hp.1 _) hidle⟩

theorem resumable_of_reads (hp : p.All fun _ write => ∀ s, write s = s) : p.Resumable s :=
  fun _ _ _ h => (h.idle hp).2.meets


theorem alone_beside {δ : Type} (derive : ε → σ → σ → δ → δ) (p : Prog σ ε α) (s : σ × δ) :
    ((p.beside derive).alone s).2.1 = (p.alone s.1).2 := by
  induction p generalizing s with
  | done a => rfl
  | step ev write next ih => exact ih s.1 _

namespace LostIff
variable {p q left : Prog σ ε Unit} {lost : Prop}

theorem resumed_iff (h : LostIff p left t lost) (hstands : p.Stands s ran t left) :
    (p.alone t).2 = (p.alone s).2 ↔ ¬ lost := by
  constructor
  · intro heq hlost
    obtain ⟨hidle, hne⟩ := h.gone hlost
    exact hne ((hidle.resumed_iff hstands).mp heq)
  · intro hkept
    rw [(h.kept hkept).resumed hstands]

theorem of_meets (h : p.Meets t left) (hkept : ¬ lost) : LostIff p left t lost :=
  ⟨fun _ => h, fun hlost => absurd hlost hkept⟩

theorem after (h : p.Idles t q) (hq : LostIff q left t lost) : LostIff p left t lost :=
  ⟨fun hkept => h.later (hq.kept hkept), fun hlost => ⟨h.trans (hq.gone hlost).1, (hq.gone hlost).2⟩⟩

theorem congr {lost' : Prop} (h : LostIff p left t lost) (hiff : lost ↔ lost') :
    LostIff p left t lost' :=
  ⟨fun hkept => h.kept (hkept ∘ hiff.mp), fun hlost => h.gone (hiff.mpr hlost)⟩

/-- At its end, nothing is left to lose. -/
theorem ended (h : LostIff p (done ()) t lost) : p.Idles t (done ()) ∧ ¬ lost := by
  have hkept : ¬ lost := fun hlost => (h.gone hlost).2 rfl
  obtain ⟨m, hm, hend⟩ := h.kept hkept
  cases hend
  exact ⟨hm, hkept⟩

/-- What follows only reads. -/
theorem bind {k : Unit → Prog σ ε Unit} (h : LostIff p left t lost)
    (hidle : (k ()).Idles t (done ())) (hreads : ((k ()).alone (left.alone t).2).2 = (left.alone t).2) :
    LostIff (p >>= k) (left >>= k) t lost := by
  refine ⟨fun hkept => (h.kept hkept).bind, fun hlost => ?_⟩
  obtain ⟨hend, hne⟩ := h.gone hlost
  refine ⟨hend.bind.trans hidle, ?_⟩
  rw [alone_bind, hreads]
  exact hne

theorem beside {δ : Type} {derive : ε → σ → σ → δ → δ} {s : σ × δ} (h : LostIff p left s.1 lost)
    (hderive : ∀ ev, derive ev s.1 s.1 s.2 = s.2) :
    LostIff (p.beside derive) (left.beside derive) s lost := by
  refine ⟨fun hkept => (h.kept hkept).beside hderive, fun hlost => ?_⟩
  obtain ⟨hend, hne⟩ := h.gone hlost
  refine ⟨hend.beside hderive, fun heq => hne ?_⟩
  rw [← alone_beside derive left s, heq]

end LostIff

end Interleaving.Prog
