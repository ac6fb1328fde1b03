import Mathlib.Data.List.Basic

/-!
# Covering the past of a node

Nodes of a graph have a past. A gap from one node to another stands for what is in the past of the
second and not of the first; with what is kept already, gaps cover a past. An answer in topological
order moves the lower end of a gap up without a loss.
-/
namespace PastCover

variable {α : Type*} {below : α → α → Prop}

def Between (below : α → α → Prop) (lower upper x : α) : Prop := below x upper ∧ ¬below x lower

/-- Kept, or in one of the gaps. -/
def Covered (below : α → α → Prop) (kept : α → Prop) (gaps : α → α → Prop) (x : α) : Prop :=
  kept x ∨ ∃ lower upper, gaps lower upper ∧ Between below lower upper x

def PastCovered (below : α → α → Prop) (kept : α → Prop) (gaps : α → α → Prop) (upper : α) : Prop :=
  ∀ x, below x upper → Covered below kept gaps x

/-- Each node of the answer comes after its past, as far as that is not in the past of `lower`. -/
def Topological (below : α → α → Prop) (lower : α) (answer : List α) : Prop :=
  ∀ before x after, answer = before ++ x :: after →
    ∀ y, below y x → below y lower ∨ y ∈ before ++ [x]

variable {kept kept' : α → Prop} {gaps gaps' : α → α → Prop} {lower upper x : α}

theorem Covered.mono (h : Covered below kept gaps x) (hkept : ∀ x, kept x → kept' x)
    (hgaps : ∀ lower upper, gaps lower upper → gaps' lower upper) : Covered below kept' gaps' x := by
  rcases h with h | ⟨lower, upper, hgap, hbetween⟩
  · exact .inl (hkept x h)
  · exact .inr ⟨lower, upper, hgaps lower upper hgap, hbetween⟩

theorem PastCovered.mono (h : PastCovered below kept gaps upper) (hkept : ∀ x, kept x → kept' x)
    (hgaps : ∀ lower upper, gaps lower upper → gaps' lower upper) :
    PastCovered below kept' gaps' upper := fun x hx => (h x hx).mono hkept hgaps

/-- A gap covers what is above a covered past. -/
theorem pastCovered_of_gap (hlower : PastCovered below kept gaps lower) (hgap : gaps lower upper) :
    PastCovered below kept gaps upper := by
  intro x hx
  by_cases hbelow : below x lower
  · exact hlower x hbelow
  · exact .inr ⟨lower, upper, hgap, hx, hbelow⟩

/-- Where one gap is replaced, it is enough to look at what it stood for. -/
theorem Covered.replace (h : Covered below kept gaps x) (hkept : ∀ x, kept x → kept' x)
    (hmoved : ∀ lower upper, gaps lower upper → ∀ x, Between below lower upper x →
      Covered below kept' gaps' x) : Covered below kept' gaps' x := by
  rcases h with h | ⟨lower, upper, hgap, hbetween⟩
  · exact .inl (hkept x h)
  · exact hmoved lower upper hgap x hbetween

theorem Topological.front {answer : List α} (h : Topological below lower answer) (n : ℕ) :
    Topological below lower (answer.take n) := by
  intro before x after hsplit
  refine h before x (after ++ answer.drop n) ?_
  rw [← List.cons_append, ← List.append_assoc, ← hsplit, List.take_append_drop]

/-- What a gap stood for came with the answer, or is above its last node. -/
theorem Topological.moves {answer : List α} {last : α} (h : Topological below lower answer)
    (hlast : answer.getLast? = some last) (hbetween : Between below lower upper x) :
    x ∈ answer ∨ Between below last upper x := by
  by_cases hbelow : below x last
  · obtain ⟨before, hsplit⟩ := List.getLast?_eq_some_iff.mp hlast
    rcases h before last [] hsplit x hbelow with hlower | hmem
    · exact absurd hlower hbetween.2
    · exact .inl (hsplit ▸ hmem)
  · exact .inr ⟨hbetween.1, hbelow⟩

/-- An answer that holds the upper end holds all of the gap. -/
theorem Topological.closes {answer : List α} (h : Topological below lower answer)
    (hmem : upper ∈ answer) (hbetween : Between below lower upper x) : x ∈ answer := by
  obtain ⟨before, after, hsplit⟩ := List.append_of_mem hmem
  rcases h before upper after hsplit x hbetween.1 with hlower | hmem
  · exact absurd hlower hbetween.2
  · rw [hsplit, List.append_cons]
    exact List.mem_append_left _ hmem

/-- The test, node after node. -/
def topological [DecidableEq α] (past : α → List α) (lower : α) : List α → List α → Bool
  | _, [] => true
  | seen, x :: rest =>
    (past x).all (fun y => y ∈ past lower || y ∈ seen ++ [x]) &&
      topological past lower (seen ++ [x]) rest

theorem topological_of_test [DecidableEq α] {past : α → List α} {answer : List α}
    (h : topological past lower [] answer = true) :
    Topological (fun y x => y ∈ past x) lower answer := by
  have hfrom : ∀ before seen x after, topological past lower seen (before ++ x :: after) = true →
      ∀ y ∈ past x, y ∈ past lower ∨ y ∈ (seen ++ before) ++ [x] := by
    intro before
    induction before with
    | nil =>
      intro seen x after htest y hy
      have hall := (Bool.and_eq_true_iff.mp htest).1
      simpa using List.all_eq_true.mp hall y hy
    | cons b before ih =>
      intro seen x after htest y hy
      have hrest := ih (seen ++ [b]) x after (Bool.and_eq_true_iff.mp htest).2 y hy
      simpa using hrest
  intro before x after hsplit y hy
  simpa using hfrom before [] x after (hsplit ▸ h) y hy

end PastCover
