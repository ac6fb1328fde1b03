import Mathlib.Data.List.AList
import Mathlib.Data.List.DropRight

/-!
# Sliding windows

Queues of times under keys. A queue is trimmed when it is looked at, and forgotten when nothing in it
is recent; what it says of the time after a cutoff is what a plain log of all counted times says.
-/
namespace SlidingWindow

variable {κ : Type*} [DecidableEq κ]

abbrev Queues (κ : Type*) := AList fun _ : κ => List ℕ

/-- The queue under a key, empty when there is none. -/
def times (m : Queues κ) (k : κ) : List ℕ := (m.lookup k).getD []

/-- A queue without its times up to the cutoff. -/
def recent (cutoff : ℕ) (q : List ℕ) : List ℕ := q.dropWhile (· ≤ cutoff)

/-- The queues with a time after the cutoff at their end. -/
def retain (cutoff : ℕ) (m : Queues κ) : Queues κ :=
  ⟨m.entries.filter fun e => e.2.getLast?.any (cutoff < ·), m.nodupKeys.sublist List.filter_sublist⟩

theorem times_insert (m : Queues κ) (k : κ) (q : List ℕ) (k' : κ) :
    times (m.insert k q) k' = if k' = k then q else times m k' := by
  unfold times
  split
  · next h => rw [h, AList.lookup_insert, Option.getD_some]
  · next h => rw [AList.lookup_insert_ne h]

theorem times_retain (cutoff : ℕ) (m : Queues κ) (k : κ) :
    times (retain cutoff m) k =
      if (times m k).getLast?.any (cutoff < ·) then times m k else [] := by
  unfold times
  cases h : m.lookup k with
  | none =>
    have hgone : (retain cutoff m).lookup k = none := by
      rw [AList.lookup_eq_none] at h ⊢
      intro hk
      obtain ⟨q, hq⟩ := List.mem_keys.mp (AList.mem_keys.mp hk)
      exact h (AList.mem_keys.mpr (List.mem_keys.mpr ⟨q, (List.mem_filter.mp hq).1⟩))
    rw [hgone]
    rfl
  | some q =>
    have hmem : Sigma.mk k q ∈ m.entries := List.of_mem_dlookup h
    rw [Option.getD_some]
    split
    · next hlast =>
      have hkept : Sigma.mk k q ∈ (retain cutoff m).entries := List.mem_filter.mpr ⟨hmem, hlast⟩
      have hlookup : (retain cutoff m).lookup k = some q :=
        List.mem_dlookup (retain cutoff m).nodupKeys hkept
      rw [hlookup, Option.getD_some]
    · next hlast =>
      have hgone : (retain cutoff m).lookup k = none := by
        rw [AList.lookup_eq_none]
        intro hk
        obtain ⟨q', hq'⟩ := List.mem_keys.mp (AList.mem_keys.mp hk)
        obtain ⟨hq', hlast'⟩ := List.mem_filter.mp hq'
        have hsame : q' = q :=
        @List.NodupKeys.eq_of_mk_mem _ (fun _ => List ℕ) k q' q _ m.nodupKeys hq' hmem
        exact hlast (hsame ▸ hlast')
      rw [hgone, Option.getD_none]

theorem recent_eq_filter (cutoff : ℕ) {q : List ℕ} (hq : q.Pairwise (· ≤ ·)) :
    recent cutoff q = q.filter (cutoff < ·) := by
  induction q with
  | nil => rfl
  | cons t q ih =>
    obtain ⟨hle, hq⟩ := List.pairwise_cons.mp hq
    by_cases ht : t ≤ cutoff
    · have htail := ih hq
      simp only [recent] at htail
      simp [recent, ht, htail]
    · have hall : ∀ u ∈ q, cutoff < u := fun u hu => lt_of_lt_of_le (not_le.mp ht) (hle u hu)
      simp only [recent, List.dropWhile_cons, decide_eq_true_eq, ht, if_false]
      rw [List.filter_cons_of_pos (by simpa using ht), List.filter_eq_self.mpr (by simpa using hall)]

/-- The times that a log has under a key, after the cutoff. -/
def logged (log : List (κ × ℕ)) (cutoff : ℕ) (k : κ) : List ℕ :=
  (log.filter fun e => e.1 = k ∧ cutoff < e.2).map Prod.snd

/-- The queues are sorted, hold times of the log only, and after the cutoff all of them. -/
structure Tracks (m : Queues κ) (log : List (κ × ℕ)) (cutoff : ℕ) : Prop where
  sorted : ∀ k, (times m k).Pairwise (· ≤ ·)
  recorded : ∀ k, ∀ t ∈ times m k, (k, t) ∈ log
  counted : ∀ k, recent cutoff (times m k) = logged log cutoff k

variable {m : Queues κ} {log : List (κ × ℕ)} {cutoff : ℕ}

theorem tracks_empty (cutoff : ℕ) : Tracks (∅ : Queues κ) [] cutoff :=
  ⟨fun _ => List.Pairwise.nil, fun _ _ ht => by simp [times] at ht, fun _ => rfl⟩

/-- What is past a later cutoff is past an earlier one. -/
theorem Tracks.later (h : Tracks m log cutoff) {cutoff' : ℕ} (hle : cutoff ≤ cutoff') :
    Tracks m log cutoff' := by
  refine ⟨h.sorted, h.recorded, fun k => ?_⟩
  have hnarrow : recent cutoff' (times m k) = (recent cutoff (times m k)).filter (cutoff' < ·) := by
    rw [recent_eq_filter _ (h.sorted k), recent_eq_filter _ (h.sorted k), List.filter_filter]
    refine List.filter_congr fun t _ => ?_
    rw [← Bool.decide_and, decide_eq_decide]
    omega
  rw [hnarrow, h.counted k, logged, logged, List.filter_map, List.filter_filter]
  refine congrArg _ (List.filter_congr fun e _ => ?_)
  rw [Function.comp_apply, ← Bool.decide_and, decide_eq_decide]
  constructor
  · rintro ⟨hlt, hk, -⟩
    exact ⟨hk, hlt⟩
  · rintro ⟨hk, hlt⟩
    exact ⟨hlt, hk, by omega⟩

theorem le_of_last {q : List ℕ} (hq : q.Pairwise (· ≤ ·)) (h : ¬q.getLast?.any (cutoff < ·)) :
    ∀ t ∈ q, t ≤ cutoff := by
  intro t ht
  obtain ⟨front, last, rfl⟩ := List.eq_nil_or_concat q |>.resolve_left (List.ne_nil_of_mem ht)
  rw [List.concat_eq_append] at *
  have hlast : last ≤ cutoff := by simpa using h
  rcases List.mem_append.mp ht with hfront | hlast'
  · exact ((List.pairwise_append.mp hq).2.2 t hfront last (List.mem_singleton_self last)).trans hlast
  · rwa [List.mem_singleton.mp hlast']

/-- Forgetting the queues with nothing recent in them loses nothing. -/
theorem Tracks.retain (h : Tracks m log cutoff) : Tracks (retain cutoff m) log cutoff := by
  refine ⟨fun k => ?_, fun k t ht => ?_, fun k => ?_⟩
  · rw [times_retain]
    split
    · exact h.sorted k
    · exact List.Pairwise.nil
  · rw [times_retain] at ht
    split at ht
    · exact h.recorded k t ht
    · cases ht
  · rw [times_retain]
    split
    · exact h.counted k
    · next hlast =>
      have hold : recent cutoff (times m k) = [] :=
        List.dropWhile_eq_nil_iff.mpr fun t ht => by simpa using le_of_last (h.sorted k) hlast t ht
      rw [← h.counted k, hold]
      rfl

/-- A queue put back as it is after the cutoff. -/
theorem Tracks.trim (h : Tracks m log cutoff) (k : κ) :
    Tracks (m.insert k (recent cutoff (times m k))) log cutoff := by
  have hsub : (recent cutoff (times m k)).Sublist (times m k) := List.dropWhile_sublist _
  refine ⟨fun k' => ?_, fun k' t ht => ?_, fun k' => ?_⟩
  · rw [times_insert]
    split
    · exact (h.sorted k).sublist hsub
    · exact h.sorted k'
  · rw [times_insert] at ht
    split at ht
    · next hk => exact hk ▸ h.recorded k t (hsub.subset ht)
    · exact h.recorded k' t ht
  · rw [times_insert]
    split
    · next hk =>
      have hidem : recent cutoff (recent cutoff (times m k)) = recent cutoff (times m k) :=
        List.dropWhile_idempotent _ _
      rw [hidem, hk, h.counted k]
    · exact h.counted k'

theorem logged_append (log : List (κ × ℕ)) (cutoff : ℕ) (k k' : κ) (now : ℕ) :
    logged (log ++ [(k, now)]) cutoff k' =
      logged log cutoff k' ++ (if k = k' ∧ cutoff < now then [now] else []) := by
  by_cases h : k = k' ∧ cutoff < now
  · simp [logged, h]
  · rw [if_neg h, List.append_nil, logged, List.filter_append,
      List.filter_cons_of_neg (by simpa using h), List.filter_nil, List.append_nil, logged]

/-- A time is counted under a key, and in the log. -/
theorem Tracks.push (h : Tracks m log cutoff) (k : κ) {now : ℕ} (hnow : ∀ e ∈ log, e.2 ≤ now) :
    Tracks (m.insert k (recent cutoff (times m k) ++ [now])) (log ++ [(k, now)]) cutoff := by
  have hsub : (recent cutoff (times m k)).Sublist (times m k) := List.dropWhile_sublist _
  have hsorted : (recent cutoff (times m k) ++ [now]).Pairwise (· ≤ ·) := by
    refine List.pairwise_append.mpr ⟨(h.sorted k).sublist hsub, List.pairwise_singleton _ _, ?_⟩
    intro t ht u hu
    rw [List.mem_singleton.mp hu]
    exact hnow _ (h.recorded k t (hsub.subset ht))
  refine ⟨fun k' => ?_, fun k' t ht => ?_, fun k' => ?_⟩
  · rw [times_insert]
    split
    · exact hsorted
    · exact h.sorted k'
  · rw [times_insert] at ht
    split at ht
    · next hk =>
      subst hk
      rcases List.mem_append.mp ht with ht | ht
      · exact List.mem_append_left _ (h.recorded k' t (hsub.subset ht))
      · rw [List.mem_singleton.mp ht]
        exact List.mem_append_right _ (List.mem_singleton_self _)
    · exact List.mem_append_left _ (h.recorded k' t ht)
  · rw [times_insert, logged_append]
    split
    · next hk =>
      subst hk
      have hfiltered : (recent cutoff (times m k')).filter (cutoff < ·) = recent cutoff (times m k') := by
        rw [recent_eq_filter _ (h.sorted k'), List.filter_filter]
        simp
      rw [recent_eq_filter _ hsorted, List.filter_append, hfiltered, h.counted k']
      by_cases hlt : cutoff < now <;> simp [hlt]
    · next hk => rw [if_neg fun hkk => hk hkk.1.symm, List.append_nil, h.counted k']

end SlidingWindow
