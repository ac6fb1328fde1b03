import Mathlib.Data.List.Basic
import Mathlib.Data.List.Induction

/-!
# Tagged undo logs

A log of entries, oldest first, each of which reverses one change of a state. Entries carry a tag
(the transaction group they belong to), and a whole tag is undone at once, newest entry first.
-/
namespace UndoLog

variable {σ ε β : Type*} (undo : σ → ε → σ)

/-- Reverse the entries, newest first. -/
def undoAll (s : σ) (es : List ε) : σ := es.reverse.foldl undo s

@[simp] theorem undoAll_nil (s : σ) : undoAll undo s [] = s := rfl

theorem undoAll_append (s : σ) (es fs : List ε) :
    undoAll undo s (es ++ fs) = undoAll undo (undoAll undo s fs) es := by
  simp [undoAll]

/-- The entries take `s'` back to `s`. -/
def Logged (s s' : σ) (es : List ε) : Prop := undoAll undo s' es = s

variable {undo}

theorem Logged.refl (s : σ) : Logged undo s s [] := rfl

theorem Logged.trans {s s' s'' : σ} {es fs : List ε} (h : Logged undo s s' es)
    (h' : Logged undo s' s'' fs) : Logged undo s s'' (es ++ fs) := by
  unfold Logged at *
  rw [undoAll_append, h', h]

section
variable [DecidableEq β] (undo) (tag : ε → β)

/-- Undo the entries of one tag and drop them from the log. -/
def undoTag (p : σ × List ε) (b : β) : σ × List ε :=
  (undoAll undo p.1 (p.2.filter fun e => tag e = b), p.2.filter fun e => tag e ≠ b)

def undoTags (p : σ × List ε) (bs : List β) : σ × List ε := bs.foldl (undoTag undo tag) p

variable {tag}

theorem undoTag_append {s : σ} {log es : List ε} {b : β} (hlog : ∀ e ∈ log, tag e ≠ b)
    (hes : ∀ e ∈ es, tag e = b) : undoTag undo tag (s, log ++ es) b = (undoAll undo s es, log) := by
  have h1 : (log ++ es).filter (fun e => tag e = b) = es := by
    rw [List.filter_append, List.filter_eq_nil_iff.mpr (by simpa using hlog),
      List.filter_eq_self.mpr (by simpa using hes), List.nil_append]
  have h2 : (log ++ es).filter (fun e => tag e ≠ b) = log := by
    rw [List.filter_append, List.filter_eq_self.mpr (by simpa using hlog),
      List.filter_eq_nil_iff.mpr (by simpa using hes), List.append_nil]
  simp only [undoTag, h1, h2]

/-- Groups of entries with distinct tags at the end of the log, undone newest group first. -/
theorem undoTags_groups {groups : List (β × List ε)} {log : List ε} (s : σ)
    (htags : (groups.map Prod.fst).Nodup) (hlog : ∀ e ∈ log, tag e ∉ groups.map Prod.fst)
    (hes : ∀ g ∈ groups, ∀ e ∈ g.2, tag e = g.1) :
    undoTags undo tag (s, log ++ groups.flatMap Prod.snd) (groups.map Prod.fst).reverse =
      (undoAll undo s (groups.flatMap Prod.snd), log) := by
  induction groups using List.reverseRecOn generalizing s with
  | nil => simp [undoTags]
  | append_singleton groups g ih =>
    rw [List.map_append, List.nodup_append] at htags
    obtain ⟨hnodup, -, hne⟩ := htags
    have hfront : ∀ e ∈ log ++ groups.flatMap Prod.snd, tag e ≠ g.1 := by
      intro e he heq
      rcases List.mem_append.mp he with he | he
      · exact hlog e he (by simp [heq])
      · obtain ⟨g', hg', he'⟩ := List.mem_flatMap.mp he
        have := hes g' (by simp [hg']) e he'
        exact hne g'.1 (List.mem_map_of_mem hg') g.1 (by simp) (this.symm.trans heq)
    have hstep : undoTag undo tag (s, log ++ groups.flatMap Prod.snd ++ g.2) g.1 = _ :=
      undoTag_append undo hfront (hes g (by simp))
    have hih := ih (undoAll undo s g.2) hnodup
      (fun e he hmem => hlog e he (by simp only [List.map_append, List.mem_append, hmem, true_or]))
      (fun g' hg' => hes g' (by simp [hg']))
    simp only [List.flatMap_append, List.flatMap_cons, List.flatMap_nil, List.append_nil,
      List.map_append, List.map_cons, List.map_nil, List.reverse_append, List.reverse_singleton,
      ← List.append_assoc] at *
    unfold undoTags at hih ⊢
    rw [List.foldl_append, List.foldl_cons, List.foldl_nil, hstep, hih, undoAll_append]

end

section
variable {tag : ε → β}

/-- Part of a logged state, and what the entries of the log do to that part. -/
structure Seen (undo : σ → ε → σ) (tag : ε → β) {σ' ε' : Type*} (undo' : σ' → ε' → σ')
    (tag' : ε' → β) (view : σ → σ') (part : ε → Option ε') : Prop where
  some {s : σ} {e : ε} {e' : ε'} : part e = .some e' → view (undo s e) = undo' (view s) e'
  none {s : σ} {e : ε} : part e = .none → view (undo s e) = view s
  tag {e : ε} {e' : ε'} : part e = .some e' → tag' e' = tag e

variable {σ' ε' : Type*} {undo' : σ' → ε' → σ'} {tag' : ε' → β} {view : σ → σ'}
variable {part : ε → Option ε'}

theorem seen_undoAll (V : Seen undo tag undo' tag' view part) (s : σ) (es : List ε) :
    view (undoAll undo s es) = undoAll undo' (view s) (es.filterMap part) := by
  induction es using List.reverseRecOn generalizing s with
  | nil => rfl
  | append_singleton es e ih =>
    rw [undoAll_append, ih, List.filterMap_append, undoAll_append]
    cases he : part e with
    | none =>
      have hnil : [e].filterMap part = [] := by simp [he]
      rw [hnil]
      exact congrArg (fun s => undoAll undo' s _) (V.none he)
    | some e' =>
      have hsing : [e].filterMap part = [e'] := by simp [he]
      rw [hsing]
      exact congrArg (fun s => undoAll undo' s _) (V.some he)

theorem seen_filter (V : Seen undo tag undo' tag' view part) (es : List ε) (q : β → Bool) :
    (es.filter fun e => q (tag e)).filterMap part =
      (es.filterMap part).filter fun e => q (tag' e) := by
  rw [List.filterMap_filter, List.filter_filterMap]
  refine List.filterMap_congr fun e _ => ?_
  cases he : part e with
  | none => simp
  | some e' => simp [Option.filter, V.tag he]

/-- Undoing tags shows in the part as undoing the same tags there. -/
theorem seen_undoTags [DecidableEq β] (V : Seen undo tag undo' tag' view part) (p : σ × List ε) (bs : List β) :
    (view (undoTags undo tag p bs).1, (undoTags undo tag p bs).2.filterMap part) =
      undoTags undo' tag' (view p.1, p.2.filterMap part) bs := by
  induction bs generalizing p with
  | nil => rfl
  | cons b bs ih =>
    have hstep : (view (undoTag undo tag p b).1, (undoTag undo tag p b).2.filterMap part) =
        undoTag undo' tag' (view p.1, p.2.filterMap part) b :=
      Prod.ext ((seen_undoAll V _ _).trans (congrArg _ (seen_filter V p.2 fun x => x = b)))
        (seen_filter V p.2 fun x => x ≠ b)
    have htail := ih (undoTag undo tag p b)
    rw [hstep] at htail
    exact htail

end

end UndoLog
