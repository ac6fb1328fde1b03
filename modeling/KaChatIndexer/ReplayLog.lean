import KaChatIndexer.UndoLog

/-!
# Replayed states with a truncated log

A state is what a sequence of items makes of a base state, and a log holds the entries that reverse
the latest items; older entries may be gone. Undoing the last groups of items leads back to a replay
of the others as long as the log still holds their entries.
-/
namespace ReplayLog
open UndoLog

/-- How an item changes the state, and the entries that reverse the change. -/
structure Machine (σ ι ε : Type*) where
  step : σ → ι → σ
  log : σ → ι → List ε
  undo : σ → ε → σ

namespace Machine

variable {σ ι ε β : Type*} (M : Machine σ ι ε)

def run (s : σ) (items : List ι) : σ := items.foldl M.step s

def runLog : σ → List ι → List ε
  | _, [] => []
  | s, i :: items => M.log s i ++ runLog (M.step s i) items

variable {M}

theorem run_append (s : σ) (items more : List ι) :
    M.run s (items ++ more) = M.run (M.run s items) more := List.foldl_append ..

theorem runLog_append (s : σ) (items more : List ι) :
    M.runLog s (items ++ more) = M.runLog s items ++ M.runLog (M.run s items) more := by
  induction items generalizing s with
  | nil => rfl
  | cons i items ih => rw [List.cons_append, runLog, ih, runLog, List.append_assoc]; rfl

theorem logged_run (hlogged : ∀ s i, Logged M.undo s (M.step s i) (M.log s i)) (s : σ)
    (items : List ι) : Logged M.undo s (M.run s items) (M.runLog s items) := by
  induction items generalizing s with
  | nil => exact Logged.refl s
  | cons i items ih => exact (hlogged s i).trans (ih _)

/-- Every entry of the log carries the tag of an item. -/
theorem runLog_tag {tag : ε → β} {itemTag : ι → β}
    (htag : ∀ s i, ∀ e ∈ M.log s i, tag e = itemTag i) {s : σ} {items : List ι} {e : ε}
    (he : e ∈ M.runLog s items) : ∃ i ∈ items, tag e = itemTag i := by
  induction items generalizing s with
  | nil => simp [runLog] at he
  | cons i items ih =>
    rcases List.mem_append.mp he with he | he
    · exact ⟨i, List.mem_cons_self, htag s i e he⟩
    · obtain ⟨j, hj, heq⟩ := ih he
      exact ⟨j, List.mem_cons_of_mem i hj, heq⟩

/-- The entries of consecutive groups of items, group by group. -/
def groups (M : Machine σ ι ε) : σ → List (β × List ι) → List (β × List ε)
  | _, [] => []
  | s, b :: bs => (b.1, M.runLog s b.2) :: groups M (M.run s b.2) bs

theorem groups_fst (s : σ) (blocks : List (β × List ι)) :
    (M.groups s blocks).map Prod.fst = blocks.map Prod.fst := by
  induction blocks generalizing s with
  | nil => rfl
  | cons b bs ih => simp only [groups, List.map_cons, ih]

theorem groups_snd (s : σ) (blocks : List (β × List ι)) :
    (M.groups s blocks).flatMap Prod.snd = M.runLog s (blocks.flatMap Prod.snd) := by
  induction blocks generalizing s with
  | nil => rfl
  | cons b bs ih =>
    rw [groups, List.flatMap_cons, ih, List.flatMap_cons, runLog_append]

theorem groups_tag {tag : ε → β} {itemTag : ι → β}
    (htag : ∀ s i, ∀ e ∈ M.log s i, tag e = itemTag i) {s : σ} {blocks : List (β × List ι)}
    (hblocks : ∀ b ∈ blocks, ∀ i ∈ b.2, itemTag i = b.1) :
    ∀ g ∈ M.groups s blocks, ∀ e ∈ g.2, tag e = g.1 := by
  induction blocks generalizing s with
  | nil => simp [groups]
  | cons b bs ih =>
    intro g hg e he
    rcases List.mem_cons.mp hg with rfl | hg
    · obtain ⟨i, hi, heq⟩ := runLog_tag htag he
      rw [heq]
      exact hblocks b List.mem_cons_self i hi
    · exact ih (fun b' hb' => hblocks b' (List.mem_cons_of_mem b hb')) g hg e he

/-- The state is that of a replay, and the log ends the way the replay's does. -/
structure Replays (M : Machine σ ι ε) (base : σ) (p : σ × List ε) (items : List ι) : Prop where
  state : p.1 = M.run base items
  log : p.2 <:+ M.runLog base items

variable {base : σ} {p : σ × List ε} {items : List ι}

theorem Replays.apply (h : M.Replays base p items) (more : List ι) :
    M.Replays base (M.run p.1 more, p.2 ++ M.runLog p.1 more) (items ++ more) where
  state := by rw [run_append, h.state]
  log := by
    rw [runLog_append, h.state, List.suffix_append_self_iff]
    exact h.log

/-- Losing the oldest entries of the log. -/
theorem Replays.shorten (h : M.Replays base p items) {log : List ε} (hlog : log <:+ p.2) :
    M.Replays base (p.1, log) items := ⟨h.state, hlog.trans h.log⟩

/-- Undoing the last groups, newest first, from a log that still holds their entries. -/
theorem Replays.undo [DecidableEq β] {tag : ε → β} {itemTag : ι → β}
    (htag : ∀ s i, ∀ e ∈ M.log s i, tag e = itemTag i)
    (hlogged : ∀ s i, Logged M.undo s (M.step s i) (M.log s i)) {before : List ι}
    {blocks : List (β × List ι)} (hblocks : ∀ b ∈ blocks, ∀ i ∈ b.2, itemTag i = b.1)
    (h : M.Replays base p (before ++ blocks.flatMap Prod.snd))
    (hheld : M.runLog (M.run base before) (blocks.flatMap Prod.snd) <:+ p.2)
    (hnodup : (blocks.map Prod.fst).Nodup)
    (hapart : ∀ i ∈ before, itemTag i ∉ blocks.map Prod.fst) :
    M.Replays base (undoTags M.undo tag p (blocks.map Prod.fst).reverse) before := by
  obtain ⟨older, holder⟩ := hheld
  have hkept : older <:+ M.runLog base before := by
    have hlog := h.log
    rwa [← holder, runLog_append, List.suffix_append_self_iff] at hlog
  have hfront : ∀ e ∈ older, tag e ∉ (M.groups (M.run base before) blocks).map Prod.fst := by
    intro e he
    obtain ⟨i, hi, heq⟩ := runLog_tag htag (hkept.subset he)
    rw [groups_fst, heq]
    exact hapart i hi
  have hundo := undoTags_groups M.undo p.1 (by rwa [groups_fst]) hfront (groups_tag htag hblocks)
  rw [groups_fst, groups_snd, holder] at hundo
  have hlast : undoAll M.undo p.1 (M.runLog (M.run base before) (blocks.flatMap Prod.snd)) =
      M.run base before := by
    rw [h.state, run_append]
    exact logged_run hlogged _ _
  rw [hlast] at hundo
  rw [hundo]
  exact ⟨rfl, hkept⟩

end Machine

end ReplayLog
