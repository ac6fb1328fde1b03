import KaChatIndexer.NamesPages
import KaChatIndexer.NamesPushes
import KaChatIndexer.Timetables

/-!
# Renewal reminders

Which reminder of a name is due. As the time goes on the reminders follow a timetable, from the opening
of the renewal window to the end of the news that the name has lapsed.
-/
namespace KaChatIndexer.NamesReminders
open ByteStrings NamesState NamesPages NamesPushes CursorTexts KaText Timetables

/-- A push event with its days and its dedup kind. -/
inductive Reminder
  | renewalOpen | expiring3 | expiring1 | expiring0 | grace | lapsed
  deriving DecidableEq

def Reminder.event : Reminder → PushEvent
  | .renewalOpen => .renewalOpen
  | .expiring3 | .expiring1 | .expiring0 => .expiring
  | .grace => .grace
  | .lapsed => .lapsed

def Reminder.days : Reminder → Option UInt32
  | .expiring3 => some 3
  | .expiring1 => some 1
  | .expiring0 => some 0
  | _ => none

def Reminder.kind : Reminder → Text
  | .renewalOpen => "renewal_open".toList
  | .expiring3 => "expiring3".toList
  | .expiring1 => "expiring1".toList
  | .expiring0 => "expiring0".toList
  | .grace => "grace".toList
  | .lapsed => "lapsed".toList

/-- `NamePush::reminder` of what is due. -/
def Reminder.push (r : Reminder) (n : NameState) : NamePush :=
  NamePush.reminder n r.event r.days r.kind

def lapsedNewsMs : Int64 := 7 * dayMs

/-- The reminder due now for a live name. -/
def dueReminder (n : NameState) (now renewWindowMs graceMs : Int64) : Option Reminder :=
  let e := n.expiresAt
  if e + graceMs ≤ now then
    if now < e + graceMs + lapsedNewsMs then some .lapsed else none
  else if e ≤ now then some .grace
  else if 3 * dayMs < renewWindowMs then
    if e - dayMs ≤ now then some .expiring1
    else if e - 3 * dayMs ≤ now then some .expiring3
    else if e - renewWindowMs ≤ now then some .renewalOpen
    else none
  else if e - renewWindowMs / 2 ≤ now then some .expiring0
  else if e - renewWindowMs ≤ now then some .renewalOpen
  else none

/-! ## The timetable -/

/-- Where a reminder stands in the order; a clock has either the two middle ones or the one. -/
def Reminder.place : Reminder → ℕ
  | .renewalOpen => 0
  | .expiring3 => 1
  | .expiring1 | .expiring0 => 2
  | .grace => 3
  | .lapsed => 4

def day : ℤ := 86400000

/-- The steps of a name that expires at `e`, with a renewal window `w` and a grace period `g`. -/
def schedule (e w g : ℤ) : List (Slot Reminder ℤ) :=
  (if 3 * day < w then
    [⟨.renewalOpen, e - w, e - 3 * day⟩, ⟨.expiring3, e - 3 * day, e - day⟩, ⟨.expiring1, e - day, e⟩]
  else [⟨.renewalOpen, e - w, e - w / 2⟩, ⟨.expiring0, e - w / 2, e⟩]) ++
  [⟨.grace, e, e + g⟩, ⟨.lapsed, e + g, e + g + 7 * day⟩]

section
variable {e w g : ℤ}

theorem schedule_adjacent (hw : 0 ≤ w) (hg : 0 ≤ g) :
    Adjacent (e - w) (schedule e w g) (e + g + 7 * day) := by
  have hend : Adjacent e [⟨Reminder.grace, e, e + g⟩, ⟨.lapsed, e + g, e + g + 7 * day⟩]
      (e + g + 7 * day) := by
    refine .cons (s := ⟨Reminder.grace, e, e + g⟩) ?_ (.cons (s := ⟨Reminder.lapsed, e + g, _⟩) ?_ (.nil _))
    · change e ≤ e + g
      omega
    · change e + g ≤ e + g + 7 * day
      unfold day
      omega
  unfold schedule
  split
  · next hlong =>
    refine .cons (s := ⟨.renewalOpen, e - w, e - 3 * day⟩) ?_ (.cons (s := ⟨.expiring3, _, e - day⟩) ?_
      (.cons (s := ⟨.expiring1, _, e⟩) ?_ hend))
    all_goals
      unfold day at *
      dsimp only
      omega
  · refine .cons (s := ⟨.renewalOpen, e - w, e - w / 2⟩) ?_
      (.cons (s := ⟨.expiring0, e - w / 2, e⟩) ?_ hend)
    all_goals
      dsimp only
      omega

theorem grace_mem : ⟨.grace, e, e + g⟩ ∈ schedule e w g := by simp [schedule]

theorem lapsed_mem : ⟨.lapsed, e + g, e + g + 7 * day⟩ ∈ schedule e w g := by simp [schedule]

/-- The slots of the long clock before the expiry. -/
theorem long_mem (h : 3 * day < w) :
    ⟨.renewalOpen, e - w, e - 3 * day⟩ ∈ schedule e w g ∧
      ⟨.expiring3, e - 3 * day, e - day⟩ ∈ schedule e w g ∧
      ⟨.expiring1, e - day, e⟩ ∈ schedule e w g := by
  simp [schedule, h]

/-- The slots of the short clock before the expiry. -/
theorem short_mem (h : ¬ 3 * day < w) :
    ⟨.renewalOpen, e - w, e - w / 2⟩ ∈ schedule e w g ∧
      ⟨.expiring0, e - w / 2, e⟩ ∈ schedule e w g := by
  simp [schedule, h]

/-- No reminder comes twice, and they come in their order. -/
theorem schedule_sorted : ((schedule e w g).map (·.kind.place)).Pairwise (· < ·) := by
  unfold schedule
  split
  · exact (by decide : [0, 1, 2, 3, 4].Pairwise (· < ·))
  · exact (by decide : [0, 2, 3, 4].Pairwise (· < ·))

theorem places_mono {i j : ℕ} {s s' : Slot Reminder ℤ} (hs : (schedule e w g)[i]? = some s)
    (hs' : (schedule e w g)[j]? = some s') (hle : i ≤ j) : s.kind.place ≤ s'.kind.place := by
  rcases Nat.lt_or_eq_of_le hle with hlt | rfl
  · obtain ⟨hi, rfl⟩ := List.getElem?_eq_some_iff.mp hs
    obtain ⟨hj, rfl⟩ := List.getElem?_eq_some_iff.mp hs'
    exact (List.pairwise_iff_getElem.mp (List.pairwise_map.mp schedule_sorted) i j hi hj hlt).le
  · rw [Option.some.inj (hs.symm.trans hs')]

theorem schedule_nodup : ((schedule e w g).map Slot.kind).Nodup := by
  have hplaces : (((schedule e w g).map Slot.kind).map Reminder.place).Nodup := by
    rw [List.map_map]
    exact schedule_sorted.imp Nat.ne_of_lt
  exact hplaces.of_map _

end

/-! ## The code follows it -/

/-- The windows are not negative, and no sum of the schedule leaves the range of `i64`. -/
structure ClockFits (n : NameState) (renewWindowMs graceMs : Int64) : Prop where
  window : 0 ≤ renewWindowMs.toInt
  grace : 0 ≤ graceMs.toInt
  low : -2 ^ 63 ≤ n.expiresAt.toInt - renewWindowMs.toInt
  high : n.expiresAt.toInt + graceMs.toInt + 7 * day < 2 ^ 63

section
variable {n : NameState} {w g now : Int64}

/-- The timetable of a name. -/
def timetable (n : NameState) (w g : Int64) : List (Slot Reminder ℤ) :=
  schedule n.expiresAt.toInt w.toInt g.toInt

theorem toInt_add_fits {a b : Int64} (hlow : -2 ^ 63 ≤ a.toInt + b.toInt)
    (hhigh : a.toInt + b.toInt < 2 ^ 63) : (a + b).toInt = a.toInt + b.toInt := by
  rw [Int64.toInt_add, Int.bmod_def]
  omega

theorem toInt_sub_fits {a b : Int64} (hlow : -2 ^ 63 ≤ a.toInt - b.toInt)
    (hhigh : a.toInt - b.toInt < 2 ^ 63) : (a - b).toInt = a.toInt - b.toInt := by
  rw [Int64.toInt_sub, Int.bmod_def]
  omega

theorem toInt_half (h : 0 ≤ w.toInt) : (w / 2).toInt = w.toInt / 2 := by
  have hlt := w.toInt_lt
  have htwo : (2 : Int64).toInt = 2 := by decide
  rw [Int64.toInt_div, htwo, Int.tdiv_eq_ediv_of_nonneg h, Int.bmod_def]
  omega

theorem adjacent (hfits : ClockFits n w g) :
    Adjacent (n.expiresAt.toInt - w.toInt) (timetable n w g)
      (n.expiresAt.toInt + g.toInt + 7 * day) :=
  schedule_adjacent hfits.window hfits.grace

/-- What the code finds due is what the timetable has. -/
theorem dueReminder_eq (hfits : ClockFits n w g) :
    dueReminder n now w g = due (timetable n w g) now.toInt := by
  have hadjacent := adjacent hfits
  obtain ⟨hwindow, hgrace, hlow, hhigh⟩ := hfits
  have hday : dayMs.toInt = day := by decide
  have hthree : (3 * dayMs).toInt = 3 * day := by decide
  have hseven : lapsedNewsMs.toInt = 7 * day := by decide
  have hdays : day = 86400000 := rfl
  have hleft := n.expiresAt.le_toInt
  have hright := n.expiresAt.toInt_lt
  have hend : (n.expiresAt + g).toInt = n.expiresAt.toInt + g.toInt :=
    toInt_add_fits (by omega) (by omega)
  have hnews : (n.expiresAt + g + lapsedNewsMs).toInt = n.expiresAt.toInt + g.toInt + 7 * day := by
    rw [toInt_add_fits (by omega) (by omega), hend, hseven]
  have hopen : (n.expiresAt - w).toInt = n.expiresAt.toInt - w.toInt :=
    toInt_sub_fits (by omega) (by omega)
  have hhalf : (n.expiresAt - w / 2).toInt = n.expiresAt.toInt - w.toInt / 2 := by
    rw [toInt_sub_fits, toInt_half hwindow] <;> rw [toInt_half hwindow] <;> omega
  have hslot {k : Reminder} {lo hi : ℤ} (hs : ⟨k, lo, hi⟩ ∈ timetable n w g)
      (hlo : lo ≤ now.toInt) (hhi : now.toInt < hi) : some k = due (timetable n w g) now.toInt :=
    (hadjacent.due_iff.mpr ⟨⟨k, lo, hi⟩, hs, rfl, hlo, hhi⟩).symm
  have hnone (hout : now.toInt < n.expiresAt.toInt - w.toInt ∨
      n.expiresAt.toInt + g.toInt + 7 * day ≤ now.toInt) : none = due (timetable n w g) now.toInt :=
    (Option.not_isSome_iff_eq_none.mp fun h => by
      have hin := hadjacent.due_isSome.mp h
      omega).symm
  simp only [dueReminder, Int64.le_iff_toInt_le, Int64.lt_iff_toInt_lt, hend, hnews, hopen, hhalf,
    hthree]
  by_cases hlapsed : n.expiresAt.toInt + g.toInt ≤ now.toInt
  · rw [if_pos hlapsed]
    split
    · next hlate => exact hslot lapsed_mem hlapsed hlate
    · exact hnone (by omega)
  rw [if_neg hlapsed]
  by_cases hpast : n.expiresAt.toInt ≤ now.toInt
  · rw [if_pos hpast]
    exact hslot grace_mem hpast (not_le.mp hlapsed)
  rw [if_neg hpast]
  by_cases hlong : 3 * day < w.toInt
  · have hone : (n.expiresAt - dayMs).toInt = n.expiresAt.toInt - day := by
      rw [toInt_sub_fits (by omega) (by omega), hday]
    have hthird : (n.expiresAt - 3 * dayMs).toInt = n.expiresAt.toInt - 3 * day := by
      rw [toInt_sub_fits (by omega) (by omega), hthree]
    obtain ⟨hfirst, hsecond, hlast⟩ := long_mem (e := n.expiresAt.toInt) (g := g.toInt) hlong
    rw [if_pos hlong, hone, hthird]
    split
    · next h => exact hslot hlast h (not_le.mp hpast)
    split
    · next h1 h3 => exact hslot hsecond h3 (not_le.mp h1)
    split
    · next h3 h => exact hslot hfirst h (not_le.mp h3)
    · exact hnone (by omega)
  · obtain ⟨hfirst, hlast⟩ := short_mem (e := n.expiresAt.toInt) (g := g.toInt) hlong
    rw [if_neg hlong]
    split
    · next h => exact hslot hlast h (not_le.mp hpast)
    split
    · next hhalf h => exact hslot hfirst h (not_le.mp hhalf)
    · exact hnone (by omega)

/-- The grace reminder is due in the grace period, and the others only before or after it. -/
theorem dueReminder_status (hfits : ClockFits n w g) :
    (dueReminder n now w g = some .grace ↔ nameStatus n.expiresAt g now = .grace) ∧
      (dueReminder n now w g = some .lapsed → nameStatus n.expiresAt g now = .lapsed) ∧
      ∀ k, dueReminder n now w g = some k → k ≠ .grace → k ≠ .lapsed →
        nameStatus n.expiresAt g now = .active := by
  have hdays : day = 86400000 := rfl
  have hend : (n.expiresAt + g).toInt = n.expiresAt.toInt + g.toInt := by
    have hleft := n.expiresAt.le_toInt
    have hgrace := hfits.grace
    have hhigh := hfits.high
    exact toInt_add_fits (by omega) (by omega)
  have hsorted : n.expiresAt.toInt ≤ (n.expiresAt + g).toInt := by
    have hgrace := hfits.grace
    omega
  have hstatus : nameStatus n.expiresAt g now = if now.toInt < n.expiresAt.toInt then .active
      else if now.toInt < (n.expiresAt + g).toInt then .grace else .lapsed := by
    simp only [nameStatus, Int64.lt_iff_toInt_lt]
  simp only [dueReminder, Int64.le_iff_toInt_le]
  by_cases hlapsed : (n.expiresAt + g).toInt ≤ now.toInt
  · rw [if_neg (by omega), if_neg (by omega)] at hstatus
    rw [if_pos hlapsed, hstatus]
    split <;> simp
  rw [if_neg hlapsed]
  by_cases hpast : n.expiresAt.toInt ≤ now.toInt
  · rw [if_neg (by omega), if_pos (by omega)] at hstatus
    rw [if_pos hpast, hstatus]
    simp
  rw [if_pos (by omega)] at hstatus
  rw [if_neg hpast, hstatus]
  split_ifs <;> simp

theorem decimalText_inj {v v' : Int64} (h : decimalText v.toInt = decimalText v'.toInt) : v = v' := by
  have hparsed := parseI64_decimalText v
  rw [h, parseI64_decimalText] at hparsed
  exact (Option.some.inj hparsed).symm

/-- A dedup key tells the name and the expiry. -/
theorem dedup_inj {n n' : NameState} {r r' : Reminder}
    (h : (r.push n).dedup = (r'.push n').dedup) : n.key = n'.key ∧ n.expiresAt = n'.expiresAt := by
  obtain ⟨hkey, hrest⟩ := append_colon_inj (colon_hexEncode _) (colon_hexEncode _) h
  obtain ⟨hexpires, -⟩ := append_colon_inj (colon_decimalText _) (colon_decimalText _) hrest
  exact ⟨Subtype.ext (hexEncode_inj.mp hkey), decimalText_inj hexpires⟩

/-- As the time goes on each reminder of a name is due once, on one stretch, in their order, without
a gap from the opening of the window to the end of the news; grace is due exactly in the grace
period; and a renewal makes every key a new one. -/
theorem reminders_follow_timetable (hfits : ClockFits n w g) :
    Adjacent (n.expiresAt.toInt - w.toInt) (timetable n w g)
        (n.expiresAt.toInt + g.toInt + 7 * day) ∧
      (timetable n w g).map Slot.kind = (if 3 * day < w.toInt
        then [.renewalOpen, .expiring3, .expiring1, .grace, .lapsed]
        else [.renewalOpen, .expiring0, .grace, .lapsed]) ∧
      (∀ now k, dueReminder n now w g = some k ↔
        ∃ s ∈ timetable n w g, s.kind = k ∧ s.start ≤ now.toInt ∧ now.toInt < s.stop) ∧
      (∀ now, (dueReminder n now w g).isSome ↔ n.expiresAt.toInt - w.toInt ≤ now.toInt ∧
        now.toInt < n.expiresAt.toInt + g.toInt + 7 * day) ∧
      (∀ now now' later k, now ≤ now' → now' ≤ later → dueReminder n now w g = some k →
        dueReminder n later w g = some k → dueReminder n now' w g = some k) ∧
      (∀ now later k k', now ≤ later → dueReminder n now w g = some k →
        dueReminder n later w g = some k' → k.place ≤ k'.place) ∧
      (∀ now, (dueReminder n now w g = some .grace ↔ nameStatus n.expiresAt g now = .grace) ∧
        (dueReminder n now w g = some .lapsed → nameStatus n.expiresAt g now = .lapsed) ∧
        ∀ k, dueReminder n now w g = some k → k ≠ .grace → k ≠ .lapsed →
          nameStatus n.expiresAt g now = .active) ∧
      ∀ renewed : NameState, n.expiresAt < renewed.expiresAt → ∀ k k' : Reminder,
        (k'.push renewed).dedup ≠ (k.push n).dedup := by
  have hadjacent := adjacent hfits
  refine ⟨hadjacent, ?_, fun now k => ?_, fun now => ?_, fun now now' later k hle hle' hnow hlater => ?_,
    fun now later k k' hle hnow hlater => ?_, fun now => dueReminder_status hfits,
    fun renewed hlt k k' hsame => ?_⟩
  · unfold timetable schedule
    split <;> rfl
  · rw [dueReminder_eq hfits]
    exact hadjacent.due_iff
  · rw [dueReminder_eq hfits]
    exact hadjacent.due_isSome
  · rw [dueReminder_eq hfits] at hnow hlater ⊢
    exact (hadjacent.ordConnected schedule_nodup k).out hnow hlater
      ⟨Int64.le_iff_toInt_le.mp hle, Int64.le_iff_toInt_le.mp hle'⟩
  · rw [dueReminder_eq hfits] at hnow hlater
    obtain ⟨s, hs, rfl, hspan⟩ := due_mem hnow
    obtain ⟨s', hs', rfl, hspan'⟩ := due_mem hlater
    obtain ⟨i, hi⟩ := List.mem_iff_getElem?.mp hs
    obtain ⟨j, hj⟩ := List.mem_iff_getElem?.mp hs'
    have hij := hadjacent.order hi hj hspan hspan' (Int64.le_iff_toInt_le.mp hle)
    exact places_mono hi hj hij
  · obtain ⟨-, hexpires⟩ := dedup_inj hsame
    rw [hexpires] at hlt
    exact Int64.lt_irrefl hlt

end

/-- A name that expires on some day of 2027, for a clock with a renewal window of ten days. -/
def sampleName : NameState where
  key := List.Vector.replicate 32 1
  name := padName [0x61]
  owner := List.Vector.replicate 32 2
  price := 0
  periodStart := 1768464000000
  expiresAt := 1800000000000

theorem sample_two_days_before :
    dueReminder sampleName 1799827200000 864000000 2592000000 = some .expiring3 := by
  have hfits : ClockFits sampleName 864000000 2592000000 := ⟨by decide, by decide, by decide, by decide⟩
  have hall := reminders_follow_timetable hfits
  refine (hall.2.2.1 1799827200000 .expiring3).mpr
    ⟨⟨.expiring3, 1799740800000, 1799913600000⟩, ?_, rfl, by decide, by decide⟩
  exact (long_mem (by decide)).2.1

end KaChatIndexer.NamesReminders
