import KaChatIndexer.FinmapPatch
import Mathlib.Tactic

/-!
# Replays of keyed events

Every event names one key of a map and changes the entry there, by that entry alone. What a replay
leaves at a key is then what the events of that key make of its entry, and invariants of the entries
carry over to replays in the order of time.
-/
namespace KeyedReplay

section
variable {E K S : Type*}

/-- `step` changes the entry at the event's key to what `own` makes of it. -/
def Keyed [DecidableEq K] (key : E → K) (own : E → Option S → Option S)
    (step : E → (Finmap fun _ : K => S) → Finmap fun _ : K => S) : Prop :=
  ∀ e m k, (step e m).lookup k = if k = key e then own e (m.lookup k) else m.lookup k

def replay (step : E → (Finmap fun _ : K => S) → Finmap fun _ : K => S)
    (m : Finmap fun _ : K => S) (events : List E) : Finmap fun _ : K => S :=
  events.foldl (fun m e => step e m) m

variable {key : E → K} {own : E → Option S → Option S}
  {step : E → (Finmap fun _ : K => S) → Finmap fun _ : K => S}

theorem replay_append (m : Finmap fun _ : K => S) (events more : List E) :
    replay step m (events ++ more) = replay step (replay step m events) more := List.foldl_append ..

theorem replay_concat (m : Finmap fun _ : K => S) (events : List E) (e : E) :
    replay step m (events ++ [e]) = step e (replay step m events) := replay_append m events [e]

variable [DecidableEq K]

/-- The events of a key decide what a replay leaves there. -/
theorem Keyed.lookup_replay (h : Keyed key own step) (m : Finmap fun _ : K => S) (events : List E)
    (k : K) : (replay step m events).lookup k =
      (events.filter fun e => decide (key e = k)).foldl (fun s e => own e s) (m.lookup k) := by
  induction events using List.reverseRecOn with
  | nil => rfl
  | append_singleton events e ih =>
    rw [replay_concat, h, ih, List.filter_append, List.foldl_append]
    by_cases hk : key e = k
    · rw [if_pos hk.symm, List.filter_cons_of_pos (by simpa using hk), List.filter_nil,
        List.foldl_cons, List.foldl_nil]
    · rw [if_neg fun h => hk h.symm, List.filter_cons_of_neg (by simpa using hk), List.filter_nil,
        List.foldl_nil]

section
variable {T : Type*} [Preorder T] {time : E → T} {inv : T → S → Prop} {rel : S → S → Prop}

/-- Every event preserves `inv` at its own time, and time only adds to what it allows. -/
structure Preserved (own : E → Option S → Option S) (time : E → T) (inv : T → S → Prop) : Prop where
  mono : ∀ now now' s, now ≤ now' → inv now s → inv now' s
  step : ∀ e room s, (∀ s₀, room = some s₀ → inv (time e) s₀) → own e room = some s →
    inv (time e) s

/-- No event removes an entry, and each relates it to the next one. -/
structure Kept (own : E → Option S → Option S) (time : E → T) (inv : T → S → Prop)
    (rel : S → S → Prop) : Prop where
  refl : ∀ s, rel s s
  trans : ∀ s s' s'', rel s s' → rel s' s'' → rel s s''
  step : ∀ e s, inv (time e) s → ∃ s', own e (some s) = some s' ∧ rel s s'

/-- A preserved property holds of the entries after a replay in the order of time. -/
theorem Keyed.invariant (h : Keyed key own step) (hinv : Preserved own time inv) {events : List E}
    (hsorted : events.Pairwise fun a b => time a ≤ time b) {now : T}
    (hnow : ∀ e ∈ events, time e ≤ now) {k : K} {s : S}
    (hs : (replay step ∅ events).lookup k = some s) : inv now s := by
  induction events using List.reverseRecOn generalizing now s with
  | nil => cases hs
  | append_singleton events e ih =>
    obtain ⟨hsorted, -, hlast⟩ := List.pairwise_append.mp hsorted
    have hbefore {s₀ : S} (hs₀ : (replay step ∅ events).lookup k = some s₀) : inv (time e) s₀ :=
      ih hsorted (fun e' he' => hlast e' he' e List.mem_cons_self) hs₀
    refine hinv.mono (time e) now s (hnow e (by simp)) ?_
    rw [replay_concat, h] at hs
    split_ifs at hs
    · exact hinv.step e _ s (fun s₀ hs₀ => hbefore hs₀) hs
    · exact hbefore hs

/-- What every event grants, the later events of a replay keep. -/
theorem Keyed.persists (h : Keyed key own step) (hinv : Preserved own time inv)
    (hkept : Kept own time inv rel) {events later : List E}
    (hsorted : (events ++ later).Pairwise fun a b => time a ≤ time b) {k : K} {s : S}
    (hs : (replay step ∅ events).lookup k = some s) :
    ∃ s', (replay step ∅ (events ++ later)).lookup k = some s' ∧ rel s s' := by
  induction later using List.reverseRecOn with
  | nil => exact ⟨s, by rw [List.append_nil]; exact hs, hkept.refl s⟩
  | append_singleton later e ih =>
    rw [← List.append_assoc] at hsorted ⊢
    obtain ⟨hbefore, -, hlast⟩ := List.pairwise_append.mp hsorted
    obtain ⟨s', hs', hrel⟩ := ih hbefore
    have hnow : inv (time e) s' :=
      h.invariant hinv hbefore (fun e' he' => hlast e' he' e List.mem_cons_self) hs'
    rw [replay_concat, h, hs']
    split_ifs
    · obtain ⟨s'', hs'', hrel'⟩ := hkept.step e s' hnow
      exact ⟨s'', hs'', hkept.trans s s' s'' hrel hrel'⟩
    · exact ⟨s', rfl, hrel⟩

end

end

end KeyedReplay
