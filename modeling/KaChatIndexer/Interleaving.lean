import Mathlib.Data.List.Basic
import Mathlib.Tactic.Common

/-!
# Interleaved programs

Workers share a state and run programs of atomic statements; between any two statements of one
program, statements of the others may run. A contract says how every statement changes the state and
what is known after it; programs that keep it alone keep it in every interleaving. A debt is a
condition that some running program will still settle.
-/
namespace Interleaving

variable {σ ε ι α β : Type}

/-- A program over shared states: a statement, named by an event, writes to the state and decides
from what it read how to go on. -/
inductive Prog (σ ε α : Type) where
  | done (a : α)
  | step (ev : ε) (write : σ → σ) (next : σ → Prog σ ε α)

namespace Prog

def bind : Prog σ ε α → (α → Prog σ ε β) → Prog σ ε β
  | done a, k => k a
  | step ev write next, k => step ev write fun s => (next s).bind k

instance : Monad (Prog σ ε) where
  pure := done
  bind := bind

/-- One statement with a result. -/
def stmt (ev : ε) (f : σ → α × σ) : Prog σ ε α :=
  step ev (fun s => (f s).2) fun s => done (f s).1

/-- A statement that only reads. -/
def query (ev : ε) (f : σ → α) : Prog σ ε α := step ev id fun s => done (f s)

/-- A statement whose result is not used. -/
def execute (ev : ε) (f : σ → σ) : Prog σ ε Unit := step ev f fun _ => done ()

/-- A program run to its end with nothing in between. -/
def alone : Prog σ ε α → σ → α × σ
  | done a, s => (a, s)
  | step _ write next, s => (next s).alone (write s)

@[simp] theorem pure_eq (a : α) : (pure a : Prog σ ε α) = done a := rfl

@[simp] theorem done_bind (a : α) (k : α → Prog σ ε β) : (done a >>= k) = k a := rfl

@[simp] theorem step_bind (ev : ε) (write : σ → σ) (next : σ → Prog σ ε α) (k : α → Prog σ ε β) :
    (step ev write next >>= k) = step ev write fun s => next s >>= k := rfl

@[simp] theorem stmt_bind (ev : ε) (f : σ → α × σ) (k : α → Prog σ ε β) :
    (stmt ev f >>= k) = step ev (fun s => (f s).2) fun s => k (f s).1 := rfl

@[simp] theorem query_bind (ev : ε) (f : σ → α) (k : α → Prog σ ε β) :
    (query ev f >>= k) = step ev id fun s => k (f s) := rfl

@[simp] theorem execute_bind (ev : ε) (f : σ → σ) (k : Unit → Prog σ ε β) :
    (execute ev f >>= k) = step ev f fun _ => k () := rfl

theorem bind_assoc {γ : Type} (p : Prog σ ε α) (k : α → Prog σ ε β) (l : β → Prog σ ε γ) :
    ((p >>= k) >>= l) = p >>= fun a => k a >>= l := by
  induction p with
  | done a => rfl
  | step ev write next ih =>
    simp only [step_bind]
    congr 1
    exact funext ih

@[simp] theorem alone_done (a : α) (s : σ) : (done a : Prog σ ε α).alone s = (a, s) := rfl

@[simp] theorem alone_step (ev : ε) (write : σ → σ) (next : σ → Prog σ ε α) (s : σ) :
    (step ev write next).alone s = (next s).alone (write s) := rfl

theorem alone_bind (p : Prog σ ε α) (k : α → Prog σ ε β) (s : σ) :
    (p >>= k).alone s = (k (p.alone s).1).alone (p.alone s).2 := by
  induction p generalizing s with
  | done a => rfl
  | step ev write next ih => exact ih s (write s)

/-- Every statement of the program satisfies `Q`. -/
def All (Q : ε → (σ → σ) → Prop) : Prog σ ε α → Prop
  | done _ => True
  | step ev write next => Q ev write ∧ ∀ s, (next s).All Q

section
variable {Q : ε → (σ → σ) → Prop}

@[simp] theorem all_done (a : α) : (done a : Prog σ ε α).All Q := trivial

@[simp] theorem all_step (ev : ε) (write : σ → σ) (next : σ → Prog σ ε α) :
    (step ev write next).All Q ↔ Q ev write ∧ ∀ s, (next s).All Q := Iff.rfl

theorem All.bind {p : Prog σ ε α} {k : α → Prog σ ε β} (hp : p.All Q) (hk : ∀ a, (k a).All Q) :
    (p >>= k).All Q := by
  induction p with
  | done a => exact hk a
  | step ev write next ih => exact ⟨hp.1, fun s => ih s (hp.2 s)⟩

theorem All.stmt_bind {ev : ε} {g : σ → α × σ} {k : α → Prog σ ε β} (hev : Q ev fun s => (g s).2)
    (h : ∀ a, (k a).All Q) : (stmt ev g >>= k).All Q := ⟨hev, fun s => h (g s).1⟩

theorem All.query_bind {ev : ε} {g : σ → α} {k : α → Prog σ ε β} (hev : Q ev id)
    (h : ∀ a, (k a).All Q) : (query ev g >>= k).All Q := ⟨hev, fun s => h (g s)⟩

theorem All.execute_bind {ev : ε} {write : σ → σ} {k : Unit → Prog σ ε β} (hev : Q ev write)
    (h : (k ()).All Q) : (execute ev write >>= k).All Q := ⟨hev, fun _ => h⟩

theorem All.imp {Q' : ε → (σ → σ) → Prop} {p : Prog σ ε α} (hp : p.All Q)
    (h : ∀ ev write, Q ev write → Q' ev write) : p.All Q' := by
  induction p with
  | done a => trivial
  | step ev write next ih => exact ⟨h ev write hp.1, fun s => ih s (hp.2 s)⟩

end

/-- Every statement of the program is one that `ok` allows and changes nothing that `f` sees. -/
def Frame {τ : Type} (ok : ε → Prop) (f : σ → τ) : Prog σ ε α → Prop
  | done _ => True
  | step ev write next => ok ev ∧ ∀ s, f (write s) = f s ∧ (next s).Frame ok f

section
variable {τ : Type} {ok : ε → Prop} {f : σ → τ}

@[simp] theorem frame_done (a : α) : (done a : Prog σ ε α).Frame ok f := trivial

@[simp] theorem frame_step (ev : ε) (write : σ → σ) (next : σ → Prog σ ε α) :
    (step ev write next).Frame ok f ↔ ok ev ∧ ∀ s, f (write s) = f s ∧ (next s).Frame ok f :=
  Iff.rfl

@[simp] theorem frame_query (ev : ε) (g : σ → α) : (query ev g).Frame ok f ↔ ok ev := by
  simp [query]

@[simp] theorem frame_execute (ev : ε) (write : σ → σ) :
    (execute ev write).Frame ok f ↔ ok ev ∧ ∀ s, f (write s) = f s := by simp [execute]

theorem Frame.bind {p : Prog σ ε α} {k : α → Prog σ ε β} (hp : p.Frame ok f)
    (hk : ∀ a, (k a).Frame ok f) : (p >>= k).Frame ok f := by
  induction p with
  | done a => exact hk a
  | step ev write next ih => exact ⟨hp.1, fun s => ⟨(hp.2 s).1, ih s (hp.2 s).2⟩⟩

theorem Frame.stmt_bind {ev : ε} {g : σ → α × σ} {k : α → Prog σ ε β} (hev : ok ev)
    (h : ∀ s, f (g s).2 = f s ∧ (k (g s).1).Frame ok f) : (stmt ev g >>= k).Frame ok f := ⟨hev, h⟩

theorem Frame.query_bind {ev : ε} {g : σ → α} {k : α → Prog σ ε β} (hev : ok ev)
    (h : ∀ a, (k a).Frame ok f) : (query ev g >>= k).Frame ok f := ⟨hev, fun s => ⟨rfl, h (g s)⟩⟩

theorem Frame.execute_bind {ev : ε} {write : σ → σ} {k : Unit → Prog σ ε β} (hev : ok ev)
    (hwrite : ∀ s, f (write s) = f s) (h : (k ()).Frame ok f) :
    (execute ev write >>= k).Frame ok f := ⟨hev, fun s => ⟨hwrite s, h⟩⟩

theorem Frame.all {p : Prog σ ε α} (hp : p.Frame ok f) :
    p.All fun ev write => ok ev ∧ ∀ s, f (write s) = f s := by
  induction p with
  | done a => trivial
  | step ev write next ih => exact ⟨⟨hp.1, fun s => (hp.2 s).1⟩, fun s => ih s (hp.2 s).2⟩

theorem Frame.alone {p : Prog σ ε α} (hp : p.Frame ok f) (s : σ) : f (p.alone s).2 = f s := by
  induction p generalizing s with
  | done a => rfl
  | step ev write next ih => exact (ih s (hp.2 s).2 (write s)).trans (hp.2 s).1

end

/-! ## A state kept beside -/

/-- The program on a state with another beside it, which each statement moves by what it did. -/
def beside {δ : Type} (derive : ε → σ → σ → δ → δ) : Prog σ ε α → Prog (σ × δ) ε α
  | done a => done a
  | step ev write next => step ev (fun s => (write s.1, derive ev s.1 (write s.1) s.2))
      fun s => (next s.1).beside derive

theorem All.beside {δ : Type} {derive : ε → σ → σ → δ → δ} {Q : ε → (σ → σ) → Prop}
    {Q' : ε → (σ × δ → σ × δ) → Prop} {p : Prog σ ε α} (hp : p.All Q)
    (h : ∀ ev write, Q ev write →
      Q' ev fun s => (write s.1, derive ev s.1 (write s.1) s.2)) : (p.beside derive).All Q' := by
  induction p with
  | done a => trivial
  | step ev write next ih => exact ⟨h ev write hp.1, fun s => ih s.1 (hp.2 s.1)⟩

end Prog

open Prog

/-- The shared state, the jobs started so far with what is left of each, and the statements run so
far, the newest first. -/
structure World (σ ε ι : Type) where
  state : σ
  jobs : List (ι × Prog σ ε Unit)
  trace : List (ι × ε)

/-- Which jobs may be started, their programs, and when each statement may run. -/
structure System (σ ε ι : Type) where
  input : ι → Prop
  prog : ι → Prog σ ε Unit
  may : ι → ε → σ → Prop

namespace World

def start (s : σ) : World σ ε ι := ⟨s, [], []⟩

def deliver (w : World σ ε ι) (prog : ι → Prog σ ε Unit) (i : ι) : World σ ε ι :=
  { w with jobs := w.jobs ++ [(i, prog i)] }

/-- One statement of job `k`. -/
def exec (w : World σ ε ι) (k : ℕ) : Option (World σ ε ι) :=
  match w.jobs[k]? with
  | some (i, .step ev write next) =>
      some ⟨write w.state, w.jobs.set k (i, next w.state), (i, ev) :: w.trace⟩
  | _ => none

/-- Every job started has ended. -/
def Quiet (w : World σ ε ι) : Prop := ∀ job ∈ w.jobs, job.2 = .done ()

/-- Some job of the input has ended. -/
def Processed (w : World σ ε ι) (i : ι) : Prop := (i, Prog.done ()) ∈ w.jobs

end World

/-- The worlds a system can come to, one statement after another in any order. -/
inductive System.Reaches (S : System σ ε ι) (s : σ) : World σ ε ι → Prop
  | start : S.Reaches s (.start s)
  | deliver {w : World σ ε ι} (i : ι) (h : S.Reaches s w) (hi : S.input i) :
      S.Reaches s (w.deliver S.prog i)
  | exec {w w' : World σ ε ι} (k : ℕ) {i : ι} {ev : ε} {write : σ → σ}
      {next : σ → Prog σ ε Unit} (h : S.Reaches s w)
      (hjob : w.jobs[k]? = some (i, .step ev write next)) (hmay : S.may i ev w.state)
      (hexec : w.exec k = some w') : S.Reaches s w'

/-- One move of a schedule. -/
inductive Act (ι : Type) where
  | deliver (i : ι)
  | exec (k : ℕ)

/-- Following a schedule; `none` when it asks for a statement of a job that has none, or for one
that may not run. -/
def run (prog : ι → Prog σ ε Unit) (may : ι → ε → σ → Bool) :
    List (Act ι) → World σ ε ι → Option (World σ ε ι)
  | [], w => some w
  | .deliver i :: acts, w => run prog may acts (w.deliver prog i)
  | .exec k :: acts, w =>
    match w.jobs[k]? with
    | some (i, .step ev _ _) =>
        if may i ev w.state then (w.exec k).bind (run prog may acts) else none
    | _ => none

theorem World.exec_eq_some {w w' : World σ ε ι} {k : ℕ} (h : w.exec k = some w') :
    ∃ i ev write next, w.jobs[k]? = some (i, Prog.step ev write next) ∧
      w' = ⟨write w.state, w.jobs.set k (i, next w.state), (i, ev) :: w.trace⟩ := by
  unfold World.exec at h
  split at h
  · next i ev write next hjob => exact ⟨i, ev, write, next, hjob, (Option.some.inj h).symm⟩
  · cases h

theorem System.Reaches.run {S : System σ ε ι} {s : σ} {w w' : World σ ε ι} (h : S.Reaches s w)
    {may : ι → ε → σ → Bool} {acts : List (Act ι)}
    (hinput : ∀ i, Act.deliver i ∈ acts → S.input i)
    (hmay : ∀ i ev t, may i ev t = true → S.may i ev t)
    (hrun : run S.prog may acts w = some w') : S.Reaches s w' := by
  induction acts generalizing w with
  | nil => exact Option.some.inj hrun ▸ h
  | cons act acts ih =>
    have hrest (i : ι) (hi : Act.deliver i ∈ acts) : S.input i :=
      hinput i (List.mem_cons_of_mem _ hi)
    cases act with
    | deliver i => exact ih (h.deliver i (hinput i List.mem_cons_self)) hrest hrun
    | exec k =>
      unfold Interleaving.run at hrun
      split at hrun
      · next i ev write next hjob =>
        split at hrun
        · next hev =>
          obtain ⟨w₁, hexec, hrun⟩ := Option.bind_eq_some_iff.mp hrun
          exact ih (h.exec k hjob (hmay i ev w.state hev) hexec) hrest hrun
        · cases hrun
      · cases hrun

/-- Nothing is left of a program. -/
def Prog.ended : Prog σ ε α → Bool
  | .done _ => true
  | .step _ _ _ => false

theorem World.quiet_of_ended {w : World σ ε ι} (h : w.jobs.all (·.2.ended) = true) : w.Quiet := by
  rintro ⟨i, p⟩ hjob
  have hended := List.all_eq_true.mp h _ hjob
  cases p with
  | done a => rfl
  | step => cases hended

theorem World.Quiet.processed {w : World σ ε ι} (h : w.Quiet) {i : ι}
    (hi : i ∈ w.jobs.map Prod.fst) : w.Processed i := by
  obtain ⟨⟨i, p⟩, hjob, rfl⟩ := List.mem_map.mp hi
  obtain rfl : p = .done () := h _ hjob
  exact hjob

/-- What every statement keeps to: `rely` from any state to any later one, `inv` in every state, and
what each statement run in the past has told for good. -/
structure Contract (σ ε ι : Type) where
  rely : σ → σ → Prop
  inv : σ → Prop
  told : ι → ε → σ → Prop
  refl : ∀ s, rely s s
  trans : ∀ s t u, rely s t → rely t u → rely s u
  inv_rely : ∀ s t, rely s t → inv s → inv t
  told_rely : ∀ i ev s t, rely s t → told i ev s → told i ev t

namespace Contract

/-- The rest of a job keeps to the contract from the state on, whatever others that keep to it do in
between, and ends with `post`. -/
def Safe (C : Contract σ ε ι) (may : ε → σ → Prop) (i : ι) (post : α → σ → Prop) :
    Prog σ ε α → σ → Prop
  | .done a, s => ∀ t, C.rely s t → C.inv t → post a t
  | .step ev write next, s => ∀ t, C.rely s t → C.inv t → may ev t →
      C.rely t (write t) ∧ C.told i ev (write t) ∧ C.Safe may i post (next t) (write t)

variable {C : Contract σ ε ι} {may : ε → σ → Prop} {i : ι} {post : α → σ → Prop} {s t : σ}

theorem Safe.later {p : Prog σ ε α} (h : C.Safe may i post p s) (hst : C.rely s t) :
    C.Safe may i post p t := by
  cases p with
  | done a => exact fun u htu => h u (C.trans s t u hst htu)
  | step ev write next => exact fun u htu => h u (C.trans s t u hst htu)

theorem Safe.bind {p : Prog σ ε α} {k : α → Prog σ ε β} {post' : β → σ → Prop}
    (hp : C.Safe may i post p s)
    (hk : ∀ a t, C.inv t → post a t → C.Safe may i post' (k a) t) :
    C.Safe may i post' (p >>= k) s := by
  induction p generalizing s with
  | done a =>
    have hk' (t : σ) (hst : C.rely s t) (hinv : C.inv t) : C.Safe may i post' (k a) t :=
      hk a t hinv (hp t hst hinv)
    rw [done_bind]
    cases hka : k a with
    | done b => exact fun t hst hinv => (hka ▸ hk' t hst hinv) t (C.refl t) hinv
    | step ev write next => exact fun t hst hinv => (hka ▸ hk' t hst hinv) t (C.refl t) hinv
  | step ev write next ih =>
    intro t hst hinv hmay
    obtain ⟨hrely, htold, hnext⟩ := hp t hst hinv hmay
    exact ⟨hrely, htold, ih t hnext⟩

/-- What follows depends on nothing that the program says. -/
theorem Safe.bind_any {p : Prog σ ε α} {k : α → Prog σ ε β} {post' : β → σ → Prop}
    (hp : C.Safe may i (fun _ _ => True) p s)
    (hk : ∀ a t, C.inv t → C.Safe may i post' (k a) t) : C.Safe may i post' (p >>= k) s :=
  hp.bind fun a t hinv _ => hk a t hinv

theorem Safe.stmt_bind {ev : ε} {g : σ → β × σ} {k : β → Prog σ ε α}
    (h : ∀ t, C.rely s t → C.inv t → may ev t → C.rely t (g t).2 ∧ C.told i ev (g t).2 ∧
      C.Safe may i post (k (g t).1) (g t).2) : C.Safe may i post (stmt ev g >>= k) s := h

theorem Safe.query_bind {ev : ε} {g : σ → β} {k : β → Prog σ ε α}
    (h : ∀ t, C.rely s t → C.inv t → may ev t → C.told i ev t ∧ C.Safe may i post (k (g t)) t) :
    C.Safe may i post (query ev g >>= k) s :=
  fun t hst hinv hmay => ⟨C.refl t, h t hst hinv hmay⟩

theorem Safe.execute_bind {ev : ε} {write : σ → σ} {k : Unit → Prog σ ε α}
    (h : ∀ t, C.rely s t → C.inv t → may ev t → C.rely t (write t) ∧ C.told i ev (write t) ∧
      C.Safe may i post (k ()) (write t)) : C.Safe may i post (execute ev write >>= k) s := h

theorem Safe.imp {p : Prog σ ε α} {post' : α → σ → Prop} (hp : C.Safe may i post p s)
    (hpost : ∀ a t, C.inv t → post a t → post' a t) : C.Safe may i post' p s := by
  induction p generalizing s with
  | done a => exact fun t hst hinv => hpost a t hinv (hp t hst hinv)
  | step ev write next ih =>
    intro t hst hinv hmay
    obtain ⟨hrely, htold, hnext⟩ := hp t hst hinv hmay
    exact ⟨hrely, htold, ih t hnext⟩

theorem Safe.of_all {Q : ε → (σ → σ) → Prop} {p : Prog σ ε α} (hp : p.All Q)
    (hQ : ∀ ev write, Q ev write → ∀ t, C.inv t → may ev t →
      C.rely t (write t) ∧ C.told i ev (write t)) (hpost : ∀ a t, post a t) :
    C.Safe may i post p s := by
  induction p generalizing s with
  | done a => exact fun t _ _ => hpost a t
  | step ev write next ih =>
    intro t _ hinv hmay
    exact ⟨(hQ ev write hp.1 t hinv hmay).1, (hQ ev write hp.1 t hinv hmay).2, ih t (hp.2 t)⟩

/-- What holds for good holds at the end. -/
theorem Safe.hold {p : Prog σ ε α} {K : σ → Prop} (hp : C.Safe may i (fun _ _ => True) p s)
    (hs : K s) (hK : ∀ t u, C.rely t u → K t → K u) : C.Safe may i (fun _ t => K t) p s := by
  induction p generalizing s with
  | done a => exact fun t hst _ => hK s t hst hs
  | step ev write next ih =>
    intro t hst hinv hmay
    obtain ⟨hrely, htold, hnext⟩ := hp t hst hinv hmay
    exact ⟨hrely, htold, ih t hnext (hK t _ hrely (hK s t hst hs))⟩

/-! ## Debts -/

/-- The rest of a job brings `clear` about before it ends, whatever others do in between. -/
def Owes (C : Contract σ ε ι) (may : ε → σ → Prop) (clear : σ → Prop) : Prog σ ε α → σ → Prop
  | .done _, _ => False
  | .step ev write next, s => ∀ t, C.rely s t → C.inv t → may ev t →
      clear (write t) ∨ C.Owes may clear (next t) (write t)

/-- A statement of the rest of a job that ends `clear` leaves the job owing it. -/
def Careful (C : Contract σ ε ι) (may : ε → σ → Prop) (clear : σ → Prop) : Prog σ ε α → σ → Prop
  | .done _, _ => True
  | .step ev write next, s => ∀ t, C.rely s t → C.inv t → may ev t →
      (clear t → clear (write t) ∨ C.Owes may clear (next t) (write t)) ∧
        C.Careful may clear (next t) (write t)

variable {clear : σ → Prop}

theorem Owes.later {p : Prog σ ε α} (h : C.Owes may clear p s) (hst : C.rely s t) :
    C.Owes may clear p t := by
  cases p with
  | done a => exact h
  | step ev write next => exact fun u htu => h u (C.trans s t u hst htu)

theorem Careful.later {p : Prog σ ε α} (h : C.Careful may clear p s) (hst : C.rely s t) :
    C.Careful may clear p t := by
  cases p with
  | done a => trivial
  | step ev write next => exact fun u htu => h u (C.trans s t u hst htu)

theorem Owes.bind_left {p : Prog σ ε α} {k : α → Prog σ ε β} (h : C.Owes may clear p s) :
    C.Owes may clear (p >>= k) s := by
  induction p generalizing s with
  | done a => exact h.elim
  | step ev write next ih => exact fun t hst hinv hmay => (h t hst hinv hmay).imp_right (ih t)

/-- A debt that what follows settles, whenever it starts. -/
theorem Owes.bind_right {p : Prog σ ε α} {k : α → Prog σ ε β} (hp : C.Safe may i post p s)
    (hinv : C.inv s) (hk : ∀ a t, C.rely s t → C.inv t → C.Owes may clear (k a) t) :
    C.Owes may clear (p >>= k) s := by
  induction p generalizing s with
  | done a => exact hk a s (C.refl s) hinv
  | step ev write next ih =>
    intro t hst hinv' hmay
    obtain ⟨hrely, -, hnext⟩ := hp t hst hinv' hmay
    have hsw := C.trans _ _ _ hst hrely
    exact .inr (ih t hnext (C.inv_rely _ _ hrely hinv') fun a u htu =>
      hk a u (C.trans _ _ _ hsw htu))

theorem Owes.query_bind {ev : ε} {g : σ → β} {k : β → Prog σ ε α}
    (h : ∀ t, C.rely s t → C.inv t → may ev t → clear t ∨ C.Owes may clear (k (g t)) t) :
    C.Owes may clear (query ev g >>= k) s := h

theorem Owes.execute_bind {ev : ε} {write : σ → σ} {k : Unit → Prog σ ε α}
    (h : ∀ t, C.rely s t → C.inv t → may ev t →
      clear (write t) ∨ C.Owes may clear (k ()) (write t)) :
    C.Owes may clear (execute ev write >>= k) s := h

theorem Owes.execute {ev : ε} {write : σ → σ}
    (h : ∀ t, C.rely s t → C.inv t → may ev t → clear (write t)) :
    C.Owes may clear (execute ev write) s := fun t hst hinv hmay => .inl (h t hst hinv hmay)

theorem Careful.stmt_bind {ev : ε} {g : σ → β × σ} {k : β → Prog σ ε α}
    (h : ∀ t, C.rely s t → C.inv t → may ev t →
      (clear t → clear (g t).2 ∨ C.Owes may clear (k (g t).1) (g t).2) ∧
        C.Careful may clear (k (g t).1) (g t).2) : C.Careful may clear (stmt ev g >>= k) s := h

theorem Careful.query_bind {ev : ε} {g : σ → β} {k : β → Prog σ ε α}
    (h : ∀ t, C.rely s t → C.inv t → may ev t → C.Careful may clear (k (g t)) t) :
    C.Careful may clear (query ev g >>= k) s :=
  fun t hst hinv hmay => ⟨.inl, h t hst hinv hmay⟩

theorem Careful.execute_bind {ev : ε} {write : σ → σ} {k : Unit → Prog σ ε α}
    (h : ∀ t, C.rely s t → C.inv t → may ev t →
      (clear t → clear (write t) ∨ C.Owes may clear (k ()) (write t)) ∧
        C.Careful may clear (k ()) (write t)) : C.Careful may clear (execute ev write >>= k) s := h

theorem Careful.execute {ev : ε} {write : σ → σ}
    (h : ∀ t, C.rely s t → C.inv t → may ev t → clear t → clear (write t)) :
    C.Careful may clear (execute ev write) s :=
  fun t hst hinv hmay => ⟨fun hclear => .inl (h t hst hinv hmay hclear), trivial⟩

theorem Careful.of_all {Q : ε → (σ → σ) → Prop} {p : Prog σ ε α} (hp : p.All Q)
    (hQ : ∀ ev write, Q ev write → ∀ t, C.inv t → may ev t → clear t → clear (write t)) :
    C.Careful may clear p s := by
  induction p generalizing s with
  | done a => trivial
  | step ev write next ih =>
    exact fun t _ hinv hmay => ⟨fun h => .inl (hQ ev write hp.1 t hinv hmay h), ih t (hp.2 t)⟩

theorem Careful.bind {p : Prog σ ε α} {k : α → Prog σ ε β} (hp : C.Careful may clear p s)
    (hk : ∀ a t, C.Careful may clear (k a) t) : C.Careful may clear (p >>= k) s := by
  induction p generalizing s with
  | done a => exact hk a s
  | step ev write next ih =>
    intro t hst hinv hmay
    obtain ⟨hclear, hnext⟩ := hp t hst hinv hmay
    exact ⟨fun h => (hclear h).imp_right Owes.bind_left, ih t hnext⟩

/-- A program may end `clear` where what follows it settles the debt. -/
theorem Careful.bind_owes {p : Prog σ ε α} {k : α → Prog σ ε β} (hp : C.Safe may i post p s)
    (howes : ∀ a t, C.rely s t → C.inv t → C.Owes may clear (k a) t)
    (hk : ∀ a t, C.Careful may clear (k a) t) : C.Careful may clear (p >>= k) s := by
  induction p generalizing s with
  | done a => exact hk a s
  | step ev write next ih =>
    intro t hst hinv hmay
    obtain ⟨hrely, -, hnext⟩ := hp t hst hinv hmay
    have howes' (a : α) (u : σ) (htu : C.rely (write t) u) : C.inv u → C.Owes may clear (k a) u :=
      howes a u (C.trans _ _ _ (C.trans _ _ _ hst hrely) htu)
    exact ⟨fun _ => .inr (.bind_right hnext (C.inv_rely _ _ hrely hinv) howes'),
      ih t hnext howes'⟩

end Contract

/-- What holds of every statement of the programs holds of what is left of the jobs. -/
theorem System.Reaches.all {S : System σ ε ι} {s : σ} {w : World σ ε ι} (h : S.Reaches s w)
    {Q : ι → ε → (σ → σ) → Prop} (hprog : ∀ i, (S.prog i).All (Q i)) :
    ∀ job ∈ w.jobs, job.2.All (Q job.1) := by
  induction h with
  | start => exact nofun
  | deliver i _ _ ih =>
    intro job hjob
    rcases List.mem_append.mp hjob with hjob | hjob
    · exact ih job hjob
    · obtain rfl := List.mem_singleton.mp hjob
      exact hprog i
  | exec k _ _ _ hexec ih =>
    obtain ⟨i, ev, write, next, hjob, rfl⟩ := World.exec_eq_some hexec
    intro job hmem
    rcases List.mem_or_eq_of_mem_set hmem with hmem | rfl
    · exact ih job hmem
    · exact (ih _ (List.mem_of_getElem? hjob)).2 _

/-- What every statement keeps, as long as it may run, holds in every world reached. -/
theorem System.Reaches.keeps {S : System σ ε ι} {s : σ} {w : World σ ε ι} (h : S.Reaches s w)
    {inv : σ → Prop} {Q : ι → ε → (σ → σ) → Prop} (hprog : ∀ i, (S.prog i).All (Q i)) (hinv : inv s)
    (hstep : ∀ i ev write t, Q i ev write → S.may i ev t → inv t → inv (write t)) : inv w.state := by
  induction h with
  | start => exact hinv
  | deliver i _ _ ih => exact ih
  | @exec w w' k i ev write next hw hjob hmay hexec ih =>
    obtain ⟨i', ev', write', next', hjob', rfl⟩ := World.exec_eq_some hexec
    obtain ⟨rfl, heq⟩ := Prod.mk.inj (Option.some.inj (hjob'.symm.trans hjob))
    injection heq with hev hwrite hnext
    subst hev hwrite hnext
    have hall := hw.all hprog _ (List.mem_of_getElem? hjob)
    exact hstep _ _ _ _ hall.1 hmay ih

section
variable {S : System σ ε ι} (C : Contract σ ε ι) {post : ι → σ → Prop} {s : σ}

/-- Jobs that keep to the contract keep to it in every interleaving. -/
theorem System.Reaches.safe {w : World σ ε ι} (h : S.Reaches s w) (hinv : C.inv s)
    (hjobs : ∀ i t, S.input i → C.inv t → C.Safe (S.may i) i (fun _ => post i) (S.prog i) t) :
    C.rely s w.state ∧ C.inv w.state ∧ (∀ e ∈ w.trace, C.told e.1 e.2 w.state) ∧
      ∀ job ∈ w.jobs, C.Safe (S.may job.1) job.1 (fun _ => post job.1) job.2 w.state := by
  induction h with
  | start => exact ⟨C.refl s, hinv, nofun, nofun⟩
  | deliver i _ hi ih =>
    obtain ⟨hrely, hinv, htrace, hall⟩ := ih
    refine ⟨hrely, hinv, htrace, fun job hjob => ?_⟩
    rcases List.mem_append.mp hjob with hjob | hjob
    · exact hall job hjob
    · obtain rfl := List.mem_singleton.mp hjob
      exact hjobs i _ hi hinv
  | @exec w w' k i ev write next _ hjob hmay hexec ih =>
    obtain ⟨hrely, hinv, htrace, hall⟩ := ih
    obtain ⟨i', ev', write', next', hjob', rfl⟩ := World.exec_eq_some hexec
    obtain ⟨rfl, heq⟩ := Prod.mk.inj (Option.some.inj (hjob'.symm.trans hjob))
    injection heq with hev hwrite hnext
    subst hev hwrite hnext
    obtain ⟨hstep, htold, hsafe⟩ :=
      hall _ (List.mem_of_getElem? hjob) w.state (C.refl _) hinv hmay
    refine ⟨C.trans _ _ _ hrely hstep, C.inv_rely _ _ hstep hinv, fun e he => ?_,
      fun job hmem => ?_⟩
    · rcases List.mem_cons.mp he with rfl | he
      · exact htold
      · exact C.told_rely _ _ _ _ hstep (htrace e he)
    · rcases List.mem_or_eq_of_mem_set hmem with hmem | rfl
      · exact (hall job hmem).later hstep
      · exact hsafe

/-- Every statement of a job that keeps to the contract keeps to it. -/
theorem System.Reaches.safe_exec {w w' : World σ ε ι} (h : S.Reaches s w) (hinv : C.inv s)
    (hjobs : ∀ i t, S.input i → C.inv t → C.Safe (S.may i) i (fun _ => post i) (S.prog i) t)
    {k : ℕ} {i : ι} {ev : ε} {write : σ → σ} {next : σ → Prog σ ε Unit}
    (hjob : w.jobs[k]? = some (i, .step ev write next)) (hmay : S.may i ev w.state)
    (hexec : w.exec k = some w') : C.rely w.state w'.state := by
  obtain ⟨-, hinv, -, hall⟩ := h.safe C hinv hjobs
  obtain ⟨i', ev', write', next', hjob', rfl⟩ := World.exec_eq_some hexec
  obtain ⟨rfl, heq⟩ := Prod.mk.inj (Option.some.inj (hjob'.symm.trans hjob))
  injection heq with hev hwrite hnext
  subst hev hwrite hnext
  exact (hall _ (List.mem_of_getElem? hjob) w.state (C.refl _) hinv hmay).1

/-- Where `clear` does not hold, a job owes it. -/
theorem System.Reaches.owed {clear : σ → Prop} {w : World σ ε ι} (h : S.Reaches s w)
    (hinv : C.inv s) (hclear : clear s)
    (hjobs : ∀ i t, S.input i → C.inv t → C.Safe (S.may i) i (fun _ => post i) (S.prog i) t)
    (hcareful : ∀ i t, S.input i → C.inv t → C.Careful (S.may i) clear (S.prog i) t) :
    (∀ job ∈ w.jobs, C.Careful (S.may job.1) clear job.2 w.state) ∧
      (clear w.state ∨ ∃ job ∈ w.jobs, C.Owes (S.may job.1) clear job.2 w.state) := by
  induction h with
  | start => exact ⟨nofun, .inl hclear⟩
  | deliver i hw hi ih =>
    obtain ⟨hall, howed⟩ := ih
    obtain ⟨-, hinv, -⟩ := hw.safe C hinv hjobs
    refine ⟨fun job hjob => ?_, howed.imp_right fun ⟨job, hjob, ho⟩ =>
      ⟨job, List.mem_append_left _ hjob, ho⟩⟩
    rcases List.mem_append.mp hjob with hjob | hjob
    · exact hall job hjob
    · obtain rfl := List.mem_singleton.mp hjob
      exact hcareful i _ hi hinv
  | @exec w w' k i ev write next hw hjob hmay hexec ih =>
    obtain ⟨hall, howed⟩ := ih
    have hstep := hw.safe_exec C hinv hjobs hjob hmay hexec
    obtain ⟨-, hinv, -⟩ := hw.safe C hinv hjobs
    obtain ⟨i', ev', write', next', hjob', rfl⟩ := World.exec_eq_some hexec
    obtain ⟨rfl, heq⟩ := Prod.mk.inj (Option.some.inj (hjob'.symm.trans hjob))
    injection heq with hev hwrite hnext
    subst hev hwrite hnext
    have hk := List.getElem?_eq_some_iff.mp hjob
    have hself : (i', next' w.state) ∈ w.jobs.set k (i', next' w.state) :=
      List.mem_set hk.1 _
    obtain ⟨hbreak, hnext⟩ :=
      hall _ (List.mem_of_getElem? hjob) w.state (C.refl _) hinv hmay
    refine ⟨fun job hmem => ?_, ?_⟩
    · rcases List.mem_or_eq_of_mem_set hmem with hmem | rfl
      · exact (hall job hmem).later hstep
      · exact hnext
    · rcases howed with hclear | ⟨job, hmem, ho⟩
      · exact (hbreak hclear).imp_right fun ho => ⟨_, hself, ho⟩
      · obtain ⟨j, hj⟩ := List.getElem?_of_mem hmem
        rcases eq_or_ne j k with rfl | hne
        · obtain rfl : job = (i', .step ev' write' next') := Option.some.inj (hj.symm.trans hjob)
          exact (ho w.state (C.refl _) hinv hmay).imp_right fun ho => ⟨_, hself, ho⟩
        · refine .inr ⟨job, ?_, ho.later hstep⟩
          exact List.mem_of_getElem? ((List.getElem?_set_ne hne.symm).trans hj)

/-- Once every job has ended, no debt is left. -/
theorem System.Reaches.settled {clear : σ → Prop} {w : World σ ε ι} (h : S.Reaches s w)
    (hinv : C.inv s) (hclear : clear s)
    (hjobs : ∀ i t, S.input i → C.inv t → C.Safe (S.may i) i (fun _ => post i) (S.prog i) t)
    (hcareful : ∀ i t, S.input i → C.inv t → C.Careful (S.may i) clear (S.prog i) t)
    (hquiet : w.Quiet) : clear w.state := by
  refine (h.owed C hinv hclear hjobs hcareful).2.resolve_right ?_
  rintro ⟨job, hjob, ho⟩
  rw [hquiet job hjob] at ho
  exact ho

end

end Interleaving
