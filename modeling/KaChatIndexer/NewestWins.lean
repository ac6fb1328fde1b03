import Mathlib.Logic.Function.Basic
import KaChatIndexer.ReplayLog

/-!
# Newest-wins registers

A register per key holds the newest value written to it, under a strict order of values. A write
that is not newer is dropped; one that is leaves an entry with the value it replaced.
-/
namespace NewestWins
open UndoLog ReplayLog

/-- A write, in the group it belongs to. -/
structure Write (β κ ρ : Type*) where
  tag : β
  key : κ
  value : ρ

/-- The value that a write replaced. -/
structure Entry (β κ ρ : Type*) where
  tag : β
  key : κ
  prior : Option ρ
  deriving DecidableEq

section
variable {β κ ρ : Type*} (gt : ρ → ρ → Bool)

/-- The write finds nothing, or something older. -/
def newer (s : κ → Option ρ) (w : Write β κ ρ) : Bool := (s w.key).all fun r => gt w.value r

def entries (s : κ → Option ρ) (w : Write β κ ρ) : List (Entry β κ ρ) :=
  if newer gt s w then [⟨w.tag, w.key, s w.key⟩] else []

/-- What a register holds after some writes: the newest value written to it, if any was. -/
def IsNewest (ws : List (Write β κ ρ)) (k : κ) : Option ρ → Prop
  | some r => (∃ w ∈ ws, w.key = k ∧ w.value = r) ∧ ∀ w ∈ ws, w.key = k → gt w.value r = false
  | none => ∀ w ∈ ws, w.key ≠ k

variable {gt}

theorem entries_tag (s : κ → Option ρ) (w : Write β κ ρ) : ∀ e ∈ entries gt s w, e.tag = w.tag := by
  intro e he
  unfold entries at he
  split at he
  · rw [List.mem_singleton.mp he]
  · cases he

/-- A further write to another register, or of a value that is not newer. -/
theorem IsNewest.keep {ws : List (Write β κ ρ)} {k : κ} {o : Option ρ} (h : IsNewest gt ws k o)
    {w : Write β κ ρ} (hw : w.key = k → ∃ r, o = some r ∧ gt w.value r = false) :
    IsNewest gt (ws ++ [w]) k o := by
  cases o with
  | none =>
    intro w' hw'
    rcases List.mem_append.mp hw' with hold | hnew
    · exact h w' hold
    · rw [List.mem_singleton.mp hnew]
      intro hk
      obtain ⟨r, hr, -⟩ := hw hk
      cases hr
  | some r =>
    obtain ⟨⟨v, hv, hkey, hvalue⟩, hmax⟩ := h
    refine ⟨⟨v, List.mem_append_left _ hv, hkey, hvalue⟩, fun w' hw' hk => ?_⟩
    rcases List.mem_append.mp hw' with hold | hnew
    · exact hmax w' hold hk
    · rw [List.mem_singleton.mp hnew] at hk ⊢
      obtain ⟨r', hr', hgt⟩ := hw hk
      cases hr'
      exact hgt

/-- A further write of a newer value. -/
theorem IsNewest.replace (hirrefl : ∀ r, gt r r = false)
    (htrans : ∀ {a b c}, gt a b = true → gt b c = true → gt a c = true)
    {ws : List (Write β κ ρ)} {w : Write β κ ρ} {o : Option ρ} (h : IsNewest gt ws w.key o)
    (hnewer : o.all (fun r => gt w.value r) = true) :
    IsNewest gt (ws ++ [w]) w.key (some w.value) := by
  refine ⟨⟨w, by simp, rfl, rfl⟩, fun w' hw' hk => ?_⟩
  rcases List.mem_append.mp hw' with hold | hnew
  · cases o with
    | none => exact absurd hk (h w' hold)
    | some r =>
      have hgt : gt w.value r = true := by simpa using hnewer
      by_contra hcon
      have hw' : gt w'.value r = true := htrans (eq_true_of_ne_false hcon) hgt
      rw [h.2 w' hold hk] at hw'
      cases hw'
  · rw [List.mem_singleton.mp hnew]
    exact hirrefl _

section
variable [DecidableEq κ] (gt)

def write (s : κ → Option ρ) (w : Write β κ ρ) : κ → Option ρ :=
  if newer gt s w then Function.update s w.key (some w.value) else s

def undo (s : κ → Option ρ) (e : Entry β κ ρ) : κ → Option ρ := Function.update s e.key e.prior

/-- Registers under newest-wins writes. -/
def registers : Machine (κ → Option ρ) (Write β κ ρ) (Entry β κ ρ) := ⟨write gt, entries gt, undo⟩

variable {gt}

theorem logged_write (s : κ → Option ρ) (w : Write β κ ρ) :
    Logged undo s (write gt s w) (entries gt s w) := by
  unfold write entries
  split
  · change Function.update (Function.update s w.key (some w.value)) w.key (s w.key) = s
    rw [Function.update_idem, Function.update_eq_self]
  · exact Logged.refl s

theorem write_newest (hirrefl : ∀ r, gt r r = false)
    (htrans : ∀ {a b c}, gt a b = true → gt b c = true → gt a c = true)
    {s : κ → Option ρ} {ws : List (Write β κ ρ)} {k : κ} (h : IsNewest gt ws k (s k))
    (w : Write β κ ρ) : IsNewest gt (ws ++ [w]) k (write gt s w k) := by
  unfold write
  by_cases hnewer : newer gt s w = true
  · rw [if_pos hnewer]
    by_cases hk : w.key = k
    · subst hk
      rw [Function.update_self]
      exact h.replace hirrefl htrans hnewer
    · rw [Function.update_of_ne (Ne.symm hk)]
      exact h.keep fun heq => absurd heq hk
  · rw [if_neg hnewer]
    refine h.keep fun hk => ?_
    subst hk
    unfold newer at hnewer
    cases hs : s w.key with
    | none => simp [hs] at hnewer
    | some r => exact ⟨r, rfl, by simpa [hs] using hnewer⟩

/-- Whatever the order of the writes, each register ends with the newest. -/
theorem run_newest (hirrefl : ∀ r, gt r r = false)
    (htrans : ∀ {a b c}, gt a b = true → gt b c = true → gt a c = true)
    (ws : List (Write β κ ρ)) (k : κ) :
    IsNewest gt ws k ((registers gt).run (fun _ => none) ws k) := by
  induction ws using List.reverseRecOn with
  | nil => exact fun _ h => absurd h List.not_mem_nil
  | append_singleton ws w ih =>
    rw [Machine.run_append]
    exact write_newest hirrefl htrans ih w

/-- A run leaves in a register what was there, or the newest value written to it. -/
theorem run_settles (hirrefl : ∀ r, gt r r = false)
    (htrans : ∀ {a b c}, gt a b = true → gt b c = true → gt a c = true)
    (s : κ → Option ρ) (ws : List (Write β κ ρ)) (k : κ) :
    ((registers gt).run s ws k = s k ∧ ∀ w ∈ ws, w.key = k → newer gt s w = false) ∨
      ∃ w ∈ ws, w.key = k ∧ newer gt s w = true ∧ (registers gt).run s ws k = some w.value ∧
        ∀ w' ∈ ws, w'.key = k → gt w'.value w.value = false := by
  induction ws using List.reverseRecOn with
  | nil => exact .inl ⟨rfl, fun _ h => absurd h List.not_mem_nil⟩
  | append_singleton ws w ih =>
    rw [Machine.run_append]
    generalize hafter : (registers gt).run s ws = after at ih
    change (write gt after w k = s k ∧ _) ∨ ∃ v ∈ ws ++ [w], v.key = k ∧ _ ∧ write gt after w k = _ ∧ _
    by_cases hwrites : w.key = k ∧ newer gt after w = true
    · -- the write is the newest: what was newer than it was newer than the register too
      obtain ⟨rfl, hnewer⟩ := hwrites
      have hvalue : write gt after w w.key = some w.value := by
        rw [write, if_pos hnewer, Function.update_self]
      have hbeats {v : Write β κ ρ} (hv : v.key = w.key) (hgt : gt v.value w.value = true)
          {r : κ → Option ρ} (hr : newer gt r w = true) : newer gt r v = true := by
        unfold newer at hr ⊢
        rw [hv]
        cases hr' : r w.key with
        | none => rfl
        | some old =>
          rw [hr', Option.all_some] at hr
          exact htrans hgt hr
      refine .inr ⟨w, by simp, rfl, ?_, hvalue, fun v hv hkey => ?_⟩
      · rcases ih with ⟨hsame, -⟩ | ⟨v, -, hkey, hv, hafter, -⟩
        · unfold newer at hnewer ⊢
          rwa [hsame] at hnewer
        · unfold newer at hnewer
          rw [hafter, Option.all_some] at hnewer
          unfold newer at hv ⊢
          rw [hkey] at hv
          cases hold : s w.key with
          | none => rfl
          | some old =>
            rw [hold, Option.all_some] at hv
            exact htrans hnewer hv
      · rcases List.mem_append.mp hv with hv | hv
        · by_contra hgt
          have hgt := eq_true_of_ne_false hgt
          have hv' := hbeats hkey hgt hnewer
          rcases ih with ⟨hsame, hnone⟩ | ⟨u, hu, -, -, hafter, hmax⟩
          · unfold newer at hv'
            rw [hkey, hsame, ← hkey] at hv'
            exact absurd hv' (ne_true_of_eq_false (hnone v hv hkey))
          · unfold newer at hv'
            rw [hkey, hafter, Option.all_some] at hv'
            exact absurd hv' (ne_true_of_eq_false (hmax v hv hkey))
        · rw [List.mem_singleton.mp hv]
          exact hirrefl _
    · have hsame : write gt after w k = after k := by
        unfold write
        split_ifs with hnewer
        · exact Function.update_of_ne (fun hk => hwrites ⟨hk.symm, hnewer⟩) _ _
        · rfl
      have hnot (hkey : w.key = k) : newer gt after w = false :=
        eq_false_of_ne_true fun hnewer => hwrites ⟨hkey, hnewer⟩
      rw [hsame]
      rcases ih with ⟨hold, hnone⟩ | ⟨v, hv, hkey, hnewer, hvalue, hmax⟩
      · refine .inl ⟨hold, fun u hu hukey => ?_⟩
        rcases List.mem_append.mp hu with hu | hu
        · exact hnone u hu hukey
        · rw [List.mem_singleton.mp hu] at hukey ⊢
          have hw := hnot hukey
          unfold newer at hw ⊢
          rwa [hukey, hold, ← hukey] at hw
      · refine .inr ⟨v, List.mem_append_left _ hv, hkey, hnewer, hvalue, fun u hu hukey => ?_⟩
        rcases List.mem_append.mp hu with hu | hu
        · exact hmax u hu hukey
        · rw [List.mem_singleton.mp hu] at hukey ⊢
          have hw := hnot hukey
          unfold newer at hw
          rwa [hukey, hvalue, Option.all_some] at hw

/-- Runs of the same writes in any two orders leave the same, when no two values are equally new. -/
theorem run_same (hirrefl : ∀ r, gt r r = false)
    (htrans : ∀ {a b c}, gt a b = true → gt b c = true → gt a c = true)
    {s : κ → Option ρ} {ws ws' : List (Write β κ ρ)} (hsame : ∀ w, w ∈ ws ↔ w ∈ ws')
    (hties : ∀ w ∈ ws, ∀ v ∈ ws, gt w.value v.value = false → gt v.value w.value = false →
      w.value = v.value) : (registers gt).run s ws = (registers gt).run s ws' := by
  funext k
  rcases run_settles hirrefl htrans s ws k with ⟨hrun, hnone⟩ | ⟨w, hw, hkey, hnewer, hrun, hmax⟩
  · rcases run_settles hirrefl htrans s ws' k with ⟨hrun', -⟩ | ⟨w, hw, hkey, hnewer, -⟩
    · rw [hrun, hrun']
    · exact absurd hnewer (ne_true_of_eq_false (hnone w ((hsame w).mpr hw) hkey))
  · rcases run_settles hirrefl htrans s ws' k with ⟨-, hnone⟩ | ⟨v, hv, hkey', -, hrun', hmax'⟩
    · exact absurd hnewer (ne_true_of_eq_false (hnone w ((hsame w).mp hw) hkey))
    · have hv' := (hsame v).mpr hv
      rw [hrun, hrun', hties w hw v hv' (hmax' w ((hsame w).mp hw) hkey) (hmax v hv' hkey')]

end

end

end NewestWins
