import KaChatIndexer.Gregorian

/-!
# The month a leaderboard counts from

The arithmetic of `utc_month_start_ms`: the day is taken apart into eras of 400 years and a year that
begins in March, and put together again for the first of its month. An overflow of an `i64` is `none`.
-/
namespace KaChatIndexer.ChessMonths
open Gregorian

/-- What an `i64` holds. -/
def I64 (v : ℤ) : Prop := -2 ^ 63 ≤ v ∧ v < 2 ^ 63

instance (v : ℤ) : Decidable (I64 v) := inferInstanceAs (Decidable (_ ∧ _))

def i64 (v : ℤ) : Option ℤ := if I64 v then some v else none

def dayMs : ℤ := 86400000

/-- `/` cuts towards zero, `div_euclid` rounds down. -/
def utcMonthStartMs (nowMs : ℤ) : Option ℤ := do
  let days := nowMs / dayMs
  let z ← i64 (days + 719468)
  let era := z / 146097
  let eraDays ← i64 (era * 146097)
  let doe ← i64 (z - eraDays)
  let yoe := (doe - doe.tdiv 1460 + doe.tdiv 36524 - doe.tdiv 146096).tdiv 365
  let yearDays ← i64 (365 * yoe)
  let doy := doe - (yearDays + yoe.tdiv 4 - yoe.tdiv 100)
  let mp := (← i64 (5 * doy + 2)).tdiv 153
  let doeMonthStart := yearDays + yoe.tdiv 4 - yoe.tdiv 100 + (← i64 (153 * mp + 2)).tdiv 5
  i64 ((← i64 (eraDays + doeMonthStart - 719468)) * dayMs)

theorem i64_eq_some {v w : ℤ} : i64 v = some w ↔ I64 v ∧ v = w := by
  unfold i64
  split_ifs with h <;> simp [h]

theorem i64_fits {v : ℤ} (h : I64 v) : i64 v = some v := if_pos h

/-- A day of an era by its century, the four years in it, the year of these and the day of the year;
the leap day ends the last of four years, but in three of the four centuries not the last of all. -/
theorem era_digits {doe : ℤ} (h0 : 0 ≤ doe) (h : doe < 146097) :
    ∃ c b a d : ℤ, (0 ≤ c ∧ c ≤ 3) ∧ (0 ≤ b ∧ b ≤ 24) ∧ (0 ≤ a ∧ a ≤ 3) ∧ (0 ≤ d ∧ d ≤ 365) ∧
      (d = 365 → a = 3 ∧ (b = 24 → c = 3)) ∧ doe = 36524 * c + 1461 * b + 365 * a + d := by
  obtain ⟨c, r, hc, hr, hlast, rfl⟩ : ∃ c r : ℤ, (0 ≤ c ∧ c ≤ 3) ∧ (0 ≤ r ∧ r ≤ 36524) ∧
      (r = 36524 → c = 3) ∧ doe = 36524 * c + r := by
    rcases eq_or_ne doe 146096 with rfl | hne
    · exact ⟨3, 36524, by omega, by omega, by omega, by omega⟩
    · exact ⟨doe / 36524, doe % 36524, by omega, by omega, by omega, by omega⟩
  obtain ⟨b, q, hb, hq, rfl⟩ : ∃ b q : ℤ, (0 ≤ b ∧ b ≤ 24) ∧ (0 ≤ q ∧ q ≤ 1460) ∧ r = 1461 * b + q :=
    ⟨r / 1461, r % 1461, by omega, by omega, by omega⟩
  rcases eq_or_ne q 1460 with rfl | hne
  · exact ⟨c, b, 3, 365, hc, hb, by omega, by omega, by omega, by omega⟩
  · exact ⟨c, b, q / 365, q % 365, hc, hb, by omega, by omega, by omega, by omega⟩

/-- The year of the era to which a day belongs, and the bounds of that year. -/
theorem year_of_era {doe yoe : ℤ} (h0 : 0 ≤ doe) (h : doe < 146097)
    (hyoe : yoe = (doe - doe / 1460 + doe / 36524 - doe / 146096) / 365) :
    (0 ≤ yoe ∧ yoe ≤ 399) ∧ marchYear yoe ≤ doe ∧ doe < marchYear (yoe + 1) := by
  obtain ⟨c, b, a, d, hc, hb, ha, hd, hleap, hdoe⟩ := era_digits h0 h
  -- the leap days before `doe` but one at most, and none too many at the end of the era
  have hleaps : doe / 1460 = 25 * c + b ∨ doe / 1460 = 25 * c + b + 1 ∧ a = 3 ∧ 0 < d := by omega
  have hcenturies : doe / 36524 = c ∧ doe / 146096 = 0 ∧ (d = 365 → doe / 1460 = 25 * c + b + 1) ∨
      doe / 36524 = c + 1 ∧ doe / 146096 = 1 ∧ d = 365 ∧ doe / 1460 = 25 * c + b + 1 := by omega
  obtain ⟨e, he, hsum⟩ : ∃ e, (0 ≤ e ∧ e ≤ 364) ∧
      doe - doe / 1460 + doe / 36524 - doe / 146096 = 365 * (100 * c + 4 * b + a) + e := by
    rcases hleaps with hleaps | ⟨hleaps, -, hpos⟩
    · exact ⟨d, by omega, by omega⟩
    · exact ⟨d - 1, by omega, by omega⟩
  have hyear : yoe = 100 * c + 4 * b + a := by
    rw [hyoe, hsum]
    omega
  have hfours : yoe / 4 = 25 * c + b := by omega
  have hhundreds : yoe / 100 = c ∧ yoe / 400 = 0 := by omega
  unfold marchYear
  rw [hfours, hhundreds.1, hhundreds.2]
  refine ⟨by omega, by omega, ?_⟩
  rcases eq_or_ne a 3 with rfl | ha'
  · have hnext : (yoe + 1) / 4 = 25 * c + b + 1 := by omega
    rcases eq_or_ne b 24 with rfl | hb'
    · have hcentury : (yoe + 1) / 100 = c + 1 := by omega
      rw [hnext, hcentury]
      omega
    · have hcentury : (yoe + 1) / 100 = c := by omega
      rw [hnext, hcentury]
      omega
  · have hnext : (yoe + 1) / 4 = 25 * c + b := by omega
    have hcentury : (yoe + 1) / 100 = c := by omega
    rw [hnext, hcentury]
    omega

theorem marchYear_era (era yoe : ℤ) : marchYear (400 * era + yoe) = era * 146097 + marchYear yoe := by
  unfold marchYear
  omega

/-- The month to which a day belongs, as the source computes it. -/
theorem month_of_day {z doe yoe doy mp : ℤ} (hdoe : doe = z - z / 146097 * 146097)
    (hyoe : yoe = (doe - doe / 1460 + doe / 36524 - doe / 146096) / 365)
    (hdoy : doy = doe - (365 * yoe + yoe / 4 - yoe / 100)) (hmp : mp = (5 * doy + 2) / 153) :
    (0 ≤ yoe ∧ yoe ≤ 399) ∧ (0 ≤ doy ∧ doy ≤ 365) ∧ (0 ≤ mp ∧ mp ≤ 11) ∧ ∃ k,
      marchMonth k = z / 146097 * 146097 + (365 * yoe + yoe / 4 - yoe / 100 + (153 * mp + 2) / 5) ∧
        marchMonth k ≤ z ∧ z < marchMonth (k + 1) := by
  obtain ⟨hrange, hstart, hend⟩ := year_of_era (by omega) (by omega) hyoe
  have hnext := marchYear_succ yoe
  have hyear : marchYear yoe = 365 * yoe + yoe / 4 - yoe / 100 := by
    unfold marchYear
    omega
  have hlong : marchYear (yoe + 1) ≤ marchYear yoe + 366 := by
    rw [hnext]
    split_ifs <;> omega
  have hera := marchYear_era (z / 146097) yoe
  have hera' := marchYear_era (z / 146097) (yoe + 1)
  refine ⟨hrange, by omega, by omega, 12 * (400 * (z / 146097) + yoe) + mp, ?_⟩
  rw [marchMonth_eq _ _ (by omega) (by omega), hera, hyear]
  unfold marchDays
  refine ⟨by ring, by omega, ?_⟩
  rcases eq_or_ne mp 11 with hlast | hlast
  · have hmarch := marchMonth_eq (400 * (z / 146097) + (yoe + 1)) 0 (by omega) (by omega)
    rw [hlast, show 12 * (400 * (z / 146097) + yoe) + 11 + 1 =
      12 * (400 * (z / 146097) + (yoe + 1)) + 0 by ring, hmarch, hera']
    unfold marchDays
    omega
  · rw [add_assoc, marchMonth_eq _ _ (by omega) (by omega), hera, hyear]
    unfold marchDays
    omega

/-- The instants of a month. -/
def monthMs (n : ℤ) : Set ℤ := Set.Ico (firstDay n * dayMs) (firstDay (n + 1) * dayMs)

def MonthStart (t : ℤ) : Prop := ∃ n, t = firstDay n * dayMs

theorem tdiv_literal {a b : ℤ} (ha : 0 ≤ a) : a.tdiv b = a / b := Int.tdiv_eq_ediv_of_nonneg ha

theorem days_iff {nowMs d : ℤ} : d ≤ nowMs / dayMs ↔ d * dayMs ≤ nowMs :=
  Int.le_ediv_iff_mul_le (by decide)

theorem mem_monthMs {nowMs n : ℤ} :
    nowMs ∈ monthMs n ↔ firstDay n ≤ nowMs / dayMs ∧ nowMs / dayMs < firstDay (n + 1) := by
  rw [days_iff, ← not_le, days_iff, not_le]
  rfl

/-- Nothing overflows but the last product, for a month that begins before the first instant. -/
theorem utcMonthStartMs_eq {nowMs : ℤ} (h : I64 nowMs) :
    ∃ n, nowMs ∈ monthMs n ∧ utcMonthStartMs nowMs = i64 (firstDay n * dayMs) := by
  have hdays : -106751991168 ≤ nowMs / dayMs ∧ nowMs / dayMs ≤ 106751991167 := by
    unfold dayMs
    unfold I64 at h
    omega
  generalize hz : nowMs / dayMs + 719468 = z
  generalize hdoe : z - z / 146097 * 146097 = doe
  generalize hyoe : (doe - doe / 1460 + doe / 36524 - doe / 146096) / 365 = yoe
  generalize hdoy : doe - (365 * yoe + yoe / 4 - yoe / 100) = doy
  generalize hmp : (5 * doy + 2) / 153 = mp
  obtain ⟨hyears, hdayOfYear, hmonth, k, hstart, hle, hlt⟩ :=
    month_of_day hdoe.symm hyoe.symm hdoy.symm hmp.symm
  have hfirst : firstDay (k - 23638) = marchMonth k - 719468 := by rw [firstDay_eq, sub_add_cancel]
  have hnext : firstDay (k - 23638 + 1) = marchMonth (k + 1) - 719468 := by
    rw [firstDay_eq]
    congr 2
    ring
  refine ⟨k - 23638, mem_monthMs.mpr ⟨by omega, by omega⟩, ?_⟩
  have hz64 : i64 z = some z := i64_fits ⟨by omega, by omega⟩
  have hera64 : i64 (z / 146097 * 146097) = some _ := i64_fits ⟨by omega, by omega⟩
  have hdoe64 : i64 doe = some doe := i64_fits ⟨by omega, by omega⟩
  have hyear64 : i64 (365 * yoe) = some _ := i64_fits ⟨by omega, by omega⟩
  have hdoy64 : i64 (5 * doy + 2) = some _ := i64_fits ⟨by omega, by omega⟩
  have hmp64 : i64 (153 * mp + 2) = some _ := i64_fits ⟨by omega, by omega⟩
  have hday64 : i64 (firstDay (k - 23638)) = some _ := i64_fits ⟨by omega, by omega⟩
  have hdoe0 : 0 ≤ doe := by omega
  have hcut (b : ℤ) : doe.tdiv b = doe / b := tdiv_literal hdoe0
  have hyoe' : (doe - doe / 1460 + doe / 36524 - doe / 146096).tdiv 365 = yoe := by
    rw [tdiv_literal (by omega), hyoe]
  have hyoeCut (b : ℤ) : yoe.tdiv b = yoe / b := tdiv_literal hyears.1
  have hmp' : (5 * doy + 2).tdiv 153 = mp := by rw [tdiv_literal (by omega), hmp]
  have hfifth : (153 * mp + 2).tdiv 5 = (153 * mp + 2) / 5 := tdiv_literal (by omega)
  have hsum : z / 146097 * 146097 + (365 * yoe + yoe / 4 - yoe / 100 + (153 * mp + 2) / 5) - 719468 =
      firstDay (k - 23638) := by rw [hfirst, hstart]
  simp only [utcMonthStartMs, hz, hz64, hera64, hdoe, hdoe64, hcut, hyoe', hyear64, hyoeCut, hdoy, hdoy64,
    hmp', hmp64, hfifth, hsum, hday64, Option.bind_eq_bind, Option.bind_some]

theorem exists_month (nowMs : ℤ) (h : I64 nowMs) : ∃ n, nowMs ∈ monthMs n :=
  (utcMonthStartMs_eq h).imp fun _ h => h.1

section
variable {a b s s' n m t : ℤ}

theorem dayMs_pos : 0 < dayMs := by decide

theorem start_le_iff : firstDay n * dayMs ≤ firstDay m * dayMs ↔ n ≤ m := by
  rw [mul_le_mul_iff_left₀ dayMs_pos, firstDay_strictMono.le_iff_le]

theorem month_le (ha : a ∈ monthMs n) (hb : b ∈ monthMs m) (hab : a ≤ b) : n ≤ m := by
  by_contra hlt
  have hnext : firstDay (m + 1) * dayMs ≤ firstDay n * dayMs := start_le_iff.mpr (by omega)
  exact absurd (hb.2.trans_le (hnext.trans ha.1)) (not_lt.mpr hab)

theorem month_unique (hn : a ∈ monthMs n) (hm : a ∈ monthMs m) : n = m :=
  le_antisymm (month_le hn hm le_rfl) (month_le hm hn le_rfl)

theorem start_mem (n : ℤ) : firstDay n * dayMs ∈ monthMs n := by
  refine ⟨le_rfl, mul_lt_mul_of_pos_right ?_ dayMs_pos⟩
  exact firstDay_strictMono (by omega)

/-- A result is the start of the month. -/
theorem utcMonthStartMs_iff (ha : I64 a) (hn : a ∈ monthMs n) :
    utcMonthStartMs a = some s ↔ I64 s ∧ s = firstDay n * dayMs := by
  obtain ⟨m, hm, heq⟩ := utcMonthStartMs_eq ha
  obtain rfl := month_unique hn hm
  rw [heq, i64_eq_some]
  constructor
  · rintro ⟨hs, rfl⟩
    exact ⟨hs, rfl⟩
  · rintro ⟨hs, rfl⟩
    exact ⟨hs, rfl⟩

theorem start_greatest (hn : a ∈ monthMs n) : IsGreatest {t | MonthStart t ∧ t ≤ a} (firstDay n * dayMs) := by
  refine ⟨⟨⟨n, rfl⟩, hn.1⟩, ?_⟩
  rintro t ⟨⟨m, rfl⟩, hle⟩
  exact start_le_iff.mpr (month_le (start_mem m) hn hle)

end

section
variable {a b s s' : ℤ}

theorem start_again (ha : I64 a) (h : utcMonthStartMs a = some s) : utcMonthStartMs s = some s := by
  obtain ⟨n, hn⟩ := exists_month a ha
  obtain ⟨hs, rfl⟩ := (utcMonthStartMs_iff ha hn).mp h
  exact (utcMonthStartMs_iff hs (start_mem n)).mpr ⟨hs, rfl⟩

theorem start_mono (ha : I64 a) (hb : I64 b) (h : utcMonthStartMs a = some s)
    (h' : utcMonthStartMs b = some s') (hab : a ≤ b) : s ≤ s' := by
  obtain ⟨n, hn⟩ := exists_month a ha
  obtain ⟨m, hm⟩ := exists_month b hb
  obtain ⟨-, rfl⟩ := (utcMonthStartMs_iff ha hn).mp h
  obtain ⟨-, rfl⟩ := (utcMonthStartMs_iff hb hm).mp h'
  exact start_le_iff.mpr (month_le hn hm hab)

theorem start_eq_iff (ha : I64 a) (hb : I64 b) (h : utcMonthStartMs a = some s)
    (h' : utcMonthStartMs b = some s') : s = s' ↔ ∃ n, a ∈ monthMs n ∧ b ∈ monthMs n := by
  obtain ⟨n, hn⟩ := exists_month a ha
  obtain ⟨m, hm⟩ := exists_month b hb
  obtain ⟨-, rfl⟩ := (utcMonthStartMs_iff ha hn).mp h
  obtain ⟨-, rfl⟩ := (utcMonthStartMs_iff hb hm).mp h'
  constructor
  · intro heq
    obtain rfl : n = m := le_antisymm (start_le_iff.mp heq.le) (start_le_iff.mp heq.ge)
    exact ⟨n, hn, hm⟩
  · rintro ⟨k, hak, hbk⟩
    rw [month_unique hn hak, month_unique hm hbk]

/-- Only a month that began before the first instant has no start. -/
theorem start_isSome (ha : I64 a) :
    (utcMonthStartMs a).isSome ↔ ∃ t, MonthStart t ∧ -2 ^ 63 ≤ t ∧ t ≤ a := by
  obtain ⟨n, hn⟩ := exists_month a ha
  rw [Option.isSome_iff_exists]
  constructor
  · rintro ⟨s, h⟩
    obtain ⟨hs, rfl⟩ := (utcMonthStartMs_iff ha hn).mp h
    exact ⟨_, ⟨n, rfl⟩, hs.1, hn.1⟩
  · rintro ⟨t, ht, hlow, hle⟩
    have hstart := (start_greatest hn).2 ⟨ht, hle⟩
    exact ⟨_, (utcMonthStartMs_iff ha hn).mpr ⟨⟨hlow.trans hstart, hn.1.trans_lt ha.2⟩, rfl⟩⟩

end

/-- Midnight on 1 January. -/
def yearMs (year : ℤ) : ℤ := firstDay (12 * (year - 1970)) * dayMs

theorem yearMs_eq (year : ℤ) : yearMs year = (marchYear (year - 1) - 719162) * dayMs := by
  unfold yearMs
  rw [firstDay_eq, show 12 * (year - 1970) + 23638 = 12 * (year - 1) + 10 by ring,
    marchMonth_eq _ _ (by decide) (by decide)]
  congr 1
  unfold marchDays
  omega

/-- Unless the last product overflows, which it does when the month began before the first `i64`, the
result is the start of the month: the same for all of a month, and later for a later month. -/
theorem month_start_exact :
    (∀ nowMs s, I64 nowMs → utcMonthStartMs nowMs = some s →
      IsGreatest {t | MonthStart t ∧ t ≤ nowMs} s ∧ utcMonthStartMs s = some s) ∧
    (∀ a b s s', I64 a → I64 b → utcMonthStartMs a = some s → utcMonthStartMs b = some s' →
      (a ≤ b → s ≤ s') ∧ (s = s' ↔ ∃ n, a ∈ monthMs n ∧ b ∈ monthMs n)) ∧
    (∀ nowMs, I64 nowMs →
      ((utcMonthStartMs nowMs).isSome ↔ ∃ t, MonthStart t ∧ -2 ^ 63 ≤ t ∧ t ≤ nowMs)) ∧
    ∀ nowMs, yearMs (-290000) ≤ nowMs → nowMs < yearMs 290001 →
      I64 nowMs ∧ (utcMonthStartMs nowMs).isSome := by
  refine ⟨fun nowMs s hnow h => ⟨?_, start_again hnow h⟩,
    fun a b s s' ha hb h h' => ⟨start_mono ha hb h h', start_eq_iff ha hb h h'⟩,
    fun nowMs => start_isSome, fun nowMs hlow hhigh => ?_⟩
  · obtain ⟨n, hn⟩ := exists_month nowMs hnow
    obtain ⟨-, rfl⟩ := (utcMonthStartMs_iff hnow hn).mp h
    exact start_greatest hn
  · have hfirst : -2 ^ 63 ≤ yearMs (-290000) := by rw [yearMs_eq]; decide
    have hlast : yearMs 290001 ≤ 2 ^ 63 := by rw [yearMs_eq]; decide
    have hnow : I64 nowMs := ⟨hfirst.trans hlow, hhigh.trans_le hlast⟩
    exact ⟨hnow, (start_isSome hnow).mpr ⟨_, ⟨_, rfl⟩, hfirst, hlow⟩⟩

/-- 22 October 2026 is in the month that began on the first. -/
theorem october_start :
    IsGreatest {t | MonthStart t ∧ t ≤ 1792647960000} 1790812800000 ∧
      utcMonthStartMs 1790812800000 = some 1790812800000 :=
  month_start_exact.1 1792647960000 1790812800000 (by decide) (by decide)

end KaChatIndexer.ChessMonths
