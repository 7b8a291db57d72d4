import Hunter.Ramp
import Hunter.Scavenge.GrantSafety

set_option autoImplicit false

namespace Hunter.Scavenge

/-- A day lies in its year of the era: the centuries tell where the leap days are. -/
theorem dayOfYear_bounds {doe yoe : Int} (hlow : 0 ≤ doe) (hhigh : doe ≤ 146096)
    (hyoe : yoe = (doe - doe / 1460 + doe / 36524 - doe / 146096) / 365) :
    365 * yoe + yoe / 4 - yoe / 100 ≤ doe ∧ doe ≤ 365 * yoe + yoe / 4 - yoe / 100 + 366 := by
  obtain h | h | h | h | h : doe / 36524 = 0 ∨ doe / 36524 = 1 ∨ doe / 36524 = 2 ∨
    doe / 36524 = 3 ∨ doe / 36524 = 4 := by omega
  · have hera : doe / 146096 = 0 := by omega
    have hcentury : yoe / 100 = 0 := by omega
    omega
  · have hera : doe / 146096 = 0 := by omega
    have hcentury : yoe / 100 = 1 := by omega
    omega
  · have hera : doe / 146096 = 0 := by omega
    have hcentury : yoe / 100 = 2 := by omega
    omega
  · have hera : doe / 146096 = 0 := by omega
    have hcentury : yoe / 100 = 3 := by omega
    omega
  · -- The last day of the era.
    obtain rfl : doe = 146096 := by omega
    omega

/-- The month `mp` months after March, in a year of an era that begins with March. -/
def marchMonth (era yoe mp : Int) : Int × Int :=
  (yoe + era * 400 + (if 10 ≤ mp then 1 else 0), if 10 ≤ mp then mp - 9 else mp + 3)

def marchDays (era yoe mp : Int) : Int :=
  era * 146097 + (365 * yoe + yoe / 4 - yoe / 100) + (153 * mp + 2) / 5 - 719468

theorem daysFromCivil_marchMonth {era yoe mp : Int} (hyoe : 0 ≤ yoe ∧ yoe ≤ 399)
    (hmp : 0 ≤ mp ∧ mp ≤ 11) :
    daysFromCivil (marchMonth era yoe mp).1 (marchMonth era yoe mp).2 1 = marchDays era yoe mp := by
  by_cases hlate : 10 ≤ mp
  · have htwo : mp - 9 ≤ 2 := by omega
    have hthree : ¬ 2 < mp - 9 := by omega
    simp only [daysFromCivil, marchMonth, marchDays, hlate, htwo, hthree, if_true, if_false]
    omega
  · have htwo : ¬ mp + 3 ≤ 2 := by omega
    have hthree : 2 < mp + 3 := by omega
    simp only [daysFromCivil, marchMonth, marchDays, hlate, htwo, hthree, if_true, if_false]
    omega

theorem monthFromDays_spec (days : Int) : ∃ era yoe mp : Int, (0 ≤ yoe ∧ yoe ≤ 399) ∧
    (0 ≤ mp ∧ mp ≤ 11) ∧ marchDays era yoe mp ≤ days ∧
      monthFromDays days = marchMonth era yoe mp := by
  obtain ⟨era, hera⟩ : ∃ era, era = (days + 719468) / 146097 := ⟨_, rfl⟩
  obtain ⟨doe, hdoe⟩ : ∃ doe, doe = days + 719468 - era * 146097 := ⟨_, rfl⟩
  obtain ⟨yoe, hyoe⟩ : ∃ yoe, yoe = (doe - doe / 1460 + doe / 36524 - doe / 146096) / 365 :=
    ⟨_, rfl⟩
  obtain ⟨mp, hmp⟩ : ∃ mp, mp = (5 * (doe - (365 * yoe + yoe / 4 - yoe / 100)) + 2) / 153 :=
    ⟨_, rfl⟩
  have hmonth : monthFromDays days =
      (yoe + era * 400 + (if (if mp < 10 then mp + 3 else mp - 9) ≤ 2 then 1 else 0),
        if mp < 10 then mp + 3 else mp - 9) := by
    subst hmp hyoe hdoe hera
    rfl
  have hlow : 0 ≤ doe := by omega
  have hhigh : doe ≤ 146096 := by omega
  have hbound : 0 ≤ yoe ∧ yoe ≤ 399 := by omega
  obtain ⟨hyear, hyear'⟩ := dayOfYear_bounds hlow hhigh hyoe
  have hmp' : 0 ≤ mp ∧ mp ≤ 11 := by omega
  refine ⟨era, yoe, mp, hbound, hmp', by unfold marchDays; omega, ?_⟩
  rw [hmonth]
  by_cases hlate : 10 ≤ mp
  · have hlt : ¬ mp < 10 := by omega
    have htwo : mp - 9 ≤ 2 := by omega
    simp only [marchMonth, hlate, hlt, htwo, if_true, if_false]
  · have hlt : mp < 10 := by omega
    have htwo : ¬ mp + 3 ≤ 2 := by omega
    simp only [marchMonth, hlate, hlt, htwo, if_true, if_false]

theorem checkedSubMonth_eq {month previous : Int × Int}
    (h : checkedSubMonth month = some previous) :
    previous = if month.2 = 1 then (month.1 - 1, 12) else (month.1, month.2 - 1) := by
  simp only [checkedSubMonth, Option.ite_none_right_eq_some, Option.some.injEq] at h
  exact h.2.symm

theorem previous_marchMonth {era yoe mp : Int} {previous : Int × Int}
    (hyoe : 0 ≤ yoe ∧ yoe ≤ 399) (hmp : 0 ≤ mp ∧ mp ≤ 11)
    (h : checkedSubMonth (marchMonth era yoe mp) = some previous) :
    ∃ era' yoe' mp' : Int, (0 ≤ yoe' ∧ yoe' ≤ 399) ∧ (0 ≤ mp' ∧ mp' ≤ 11) ∧
      marchDays era' yoe' mp' < marchDays era yoe mp ∧ previous = marchMonth era' yoe' mp' := by
  rw [checkedSubMonth_eq h]
  by_cases hmarch : mp = 0
  · -- February ends the March year before, in the era before if this one has just begun.
    subst hmarch
    by_cases hera : yoe = 0
    · subst hera
      refine ⟨era - 1, 399, 11, by omega, by omega, by unfold marchDays; omega, ?_⟩
      simp only [marchMonth]
      norm_num
      omega
    · refine ⟨era, yoe - 1, 11, by omega, by omega, by unfold marchDays; omega, ?_⟩
      simp only [marchMonth]
      norm_num
      omega
  · refine ⟨era, yoe, mp - 1, hyoe, by omega, by unfold marchDays; omega, ?_⟩
    simp only [marchMonth]
    by_cases hjanuary : mp = 10
    · subst hjanuary
      norm_num
    · by_cases hfebruary : mp = 11
      · subst hfebruary
        norm_num
      · have hlate : ¬ 10 ≤ mp := by omega
        have hlate' : ¬ 10 ≤ mp - 1 := by omega
        have hone : ¬ mp + 3 = 1 := by omega
        have hbefore : mp + 3 - 1 = mp - 1 + 3 := by omega
        simp only [hlate, hlate', hone, hbefore, if_false]

theorem daysFromCivil_previous_lt {days : Int} {previous : Int × Int}
    (h : checkedSubMonth (monthFromDays days) = some previous) :
    daysFromCivil previous.1 previous.2 1 < days := by
  obtain ⟨era, yoe, mp, hyoe, hmp, hbegun, hmonth⟩ := monthFromDays_spec days
  rw [hmonth] at h
  obtain ⟨era', yoe', mp', hyoe', hmp', hbefore, rfl⟩ := previous_marchMonth hyoe hmp h
  rw [daysFromCivil_marchMonth hyoe' hmp']
  exact hbefore.trans_le hbegun

theorem lengthMs_pos {period : Period} {resetsAt : Option Int} {periodMs : Int}
    (hfixed : ∀ p, period = .fixed p → 0 < p) (h : period.lengthMs resetsAt = some periodMs) :
    0 < periodMs := by
  cases period with
  | fixed p =>
    cases h
    exact hfixed _ rfl
  | calendarMonth =>
    simp only [Period.lengthMs, monthFromTimestampMillis, Option.bind_eq_bind,
      Option.bind_eq_some_iff] at h
    obtain ⟨reset, rfl, month, hmonth, start, hstart, hperiod⟩ := h
    split at hmonth
    · cases hmonth
      have hbefore := daysFromCivil_previous_lt hstart
      cases hperiod
      omega
    · cases hmonth

/-- The allowance at any instant; the code asks for it at whole milliseconds. -/
def rampLinearAt (resetsAt : Option Int) (periodMs : Int) (t : ℚ) : ℚ :=
  match resetsAt with
  | none => 1
  | some r => if r = 0 then 1 else min ((t - (r - periodMs)) / periodMs) 1

def rampAfterHeadroomAt (resetsAt : Option Int) (periodMs : Int) (t : ℚ) : Option ℚ :=
  match resetsAt with
  | none => none
  | some r =>
    if r = 0 then none
    else if (r : ℚ) ≤ t then none
    else some (max ((periodMs - (r - t) - headroomMs) / (periodMs - headroomMs)) 0)

def QuotaWindow.rampAt (quotaWindow : QuotaWindow) (resetsAt : Option Int) (t : ℚ) : Option ℚ := do
  let periodMs ← quotaWindow.period.lengthMs resetsAt
  match quotaWindow.pacing with
  | .linear => some (rampLinearAt resetsAt periodMs t)
  | .afterHeadroom => rampAfterHeadroomAt resetsAt periodMs t

theorem rampAt_cast (quotaWindow : QuotaWindow) (resetsAt : Option Int) (nowMs : Int) :
    quotaWindow.rampAt resetsAt nowMs = quotaWindow.ramp resetsAt nowMs := by
  unfold QuotaWindow.rampAt QuotaWindow.ramp
  cases quotaWindow.period.lengthMs resetsAt with
  | none => rfl
  | some periodMs =>
    cases quotaWindow.pacing with
    | linear =>
      cases resetsAt <;> simp [rampLinearAt, rampLinear]
    | afterHeadroom =>
      cases resetsAt <;> simp [rampAfterHeadroomAt, rampAfterHeadroom]

section
variable {reset periodMs : Int} {t u used : ℚ}

def linearRamp (reset periodMs : Int) (h : 0 < periodMs) : Ramp ℚ where
  start := reset - periodMs
  finish := reset
  rises := by
    have hpos : (0 : ℚ) < periodMs := by exact_mod_cast h
    linarith

def headroomRamp (reset periodMs : Int) (h : headroomMs < periodMs) : Ramp ℚ where
  start := reset - periodMs + headroomMs
  finish := reset
  rises := by
    have hpos : (headroomMs : ℚ) < periodMs := by exact_mod_cast h
    linarith

theorem rampLinearAt_eq (hreset : reset ≠ 0) (h : 0 < periodMs) :
    rampLinearAt (some reset) periodMs t = min ((linearRamp reset periodMs h).level t) 1 := by
  simp [rampLinearAt, hreset, Ramp.level, linearRamp]

theorem rampAfterHeadroomAt_eq (hreset : reset ≠ 0) (h : headroomMs < periodMs) (ht : t < reset) :
    rampAfterHeadroomAt (some reset) periodMs t =
      some (max ((headroomRamp reset periodMs h).level t) 0) := by
  simp only [rampAfterHeadroomAt, hreset, if_false, not_le.mpr ht, Ramp.level, headroomRamp]
  ring_nf

theorem retryAtLinear_eq (hreset : reset ≠ 0) (h : 0 < periodMs) :
    retryAtLinear (some reset) periodMs used =
      some (min ((linearRamp reset periodMs h).reaches used) reset) := by
  simp [retryAtLinear, hreset, Ramp.reaches, linearRamp]

theorem retryAtAfterHeadroom_eq (hreset : reset ≠ 0) (h : headroomMs < periodMs) :
    retryAtAfterHeadroom (some reset) periodMs used =
      some (min ((headroomRamp reset periodMs h).reaches used) reset) := by
  simp only [retryAtAfterHeadroom, hreset, if_false, Ramp.reaches, headroomRamp]
  push_cast
  ring_nf

end

def QuotaWindow.Over (quotaWindow : QuotaWindow) (resetsAt : Option Int) (used t : ℚ) : Prop :=
  ∃ allowed, quotaWindow.rampAt resetsAt t = some allowed ∧ allowed ≤ used

/-- A window's cycles have a length, as those of every provider do. -/
def QuotaWindow.Cycles (quotaWindow : QuotaWindow) : Prop :=
  ∀ p, quotaWindow.period = .fixed p → 0 < p

theorem provider_periods (provider : LlmProvider) :
    ∀ w ∈ provider.quota.windows, w.Cycles := by
  have hweek : 0 < weekMs := by decide
  have hfiveH : 0 < fiveHMs := by decide
  intro w hw p hp
  cases provider <;>
    simp only [LlmProvider.quota, Quota.anthropic, Quota.openAiCodex, Quota.gitHubCopilot,
      List.mem_cons, List.not_mem_nil, or_false] at hw
  · rcases hw with rfl | rfl <;> cases hp <;> assumption
  · rcases hw with rfl | rfl <;> cases hp <;> assumption
  · subst hw
    cases hp

section
variable {quotaWindow : QuotaWindow} {reset : Int} {used now t retry : ℚ}

/-- What a retry time rests on: one ramp, and before the reset nothing else. -/
structure Paced (quotaWindow : QuotaWindow) (reset : Int) (used : ℚ) (ramp : Ramp ℚ) : Prop where
  finish : ramp.finish = reset
  retryAt : quotaWindow.retryAt (some reset) used = some (min (ramp.reaches used) reset)
  overIff : ∀ t : ℚ, t < reset →
    (quotaWindow.Over (some reset) used t ↔
      ramp.level t ≤ used ∧ (quotaWindow.pacing = .afterHeadroom → 0 ≤ used))
  late : ∀ t : ℚ, reset ≤ t → quotaWindow.Over (some reset) used t → 1 ≤ used

theorem over_linear {periodMs : Int} (hlength : quotaWindow.period.lengthMs (some reset) =
      some periodMs) (hpacing : quotaWindow.pacing = .linear) (hreset : reset ≠ 0)
    (hpos : 0 < periodMs) :
    quotaWindow.Over (some reset) used t ↔
      min ((linearRamp reset periodMs hpos).level t) 1 ≤ used := by
  simp [QuotaWindow.Over, QuotaWindow.rampAt, hlength, hpacing, rampLinearAt_eq hreset hpos]

theorem over_headroom {periodMs : Int} (hlength : quotaWindow.period.lengthMs (some reset) =
      some periodMs) (hpacing : quotaWindow.pacing = .afterHeadroom) (hreset : reset ≠ 0)
    (hfits : headroomMs < periodMs) :
    quotaWindow.Over (some reset) used t ↔
      t < reset ∧ max ((headroomRamp reset periodMs hfits).level t) 0 ≤ used := by
  by_cases ht : t < reset
  · simp [QuotaWindow.Over, QuotaWindow.rampAt, hlength, hpacing, ht,
      rampAfterHeadroomAt_eq hreset hfits ht]
  · simp [QuotaWindow.Over, QuotaWindow.rampAt, hlength, hpacing, ht, rampAfterHeadroomAt, hreset,
      not_lt.mp ht]

theorem headroom_fits {periodMs : Int} (hpacing : quotaWindow.pacing = .afterHeadroom)
    (hlength : quotaWindow.period.lengthMs (some reset) = some periodMs) :
    headroomMs < periodMs := by
  have hfits := quotaWindow.pacing_fits
  cases hperiod : quotaWindow.period with
  | calendarMonth => simp [hpacing, hperiod, Pacing.fits] at hfits
  | fixed p =>
    obtain rfl : p = periodMs := by simpa [hperiod, Period.lengthMs] using hlength
    simpa [hpacing, hperiod, Pacing.fits] using hfits

theorem paced (hcycles : quotaWindow.Cycles) (hreset : reset ≠ 0)
    (hperiod : (quotaWindow.period.lengthMs (some reset)).isSome) :
    ∃ ramp, Paced quotaWindow reset used ramp := by
  obtain ⟨periodMs, hlength⟩ := Option.isSome_iff_exists.mp hperiod
  have hpos := lengthMs_pos hcycles hlength
  cases hpacing : quotaWindow.pacing with
  | linear =>
    refine ⟨linearRamp reset periodMs hpos, rfl, ?_, fun t ht => ?_, fun t ht hover => ?_⟩
    · simp [QuotaWindow.retryAt, hlength, hpacing, retryAtLinear_eq hreset hpos]
    · have hone : (linearRamp reset periodMs hpos).level t ≤ 1 :=
        (Ramp.level_le_one_iff _).mpr (le_of_lt ht)
      rw [over_linear hlength hpacing hreset hpos, min_eq_left hone]
      simp [hpacing]
    · have hone : 1 ≤ (linearRamp reset periodMs hpos).level t := Ramp.one_le_level _ ht
      rwa [over_linear hlength hpacing hreset hpos, min_eq_right hone] at hover
  | afterHeadroom =>
    have hfits := headroom_fits hpacing hlength
    refine ⟨headroomRamp reset periodMs hfits, rfl, ?_, fun t ht => ?_, fun t ht hover => ?_⟩
    · simp [QuotaWindow.retryAt, hlength, hpacing, retryAtAfterHeadroom_eq hreset hfits]
    · rw [over_headroom hlength hpacing hreset hfits, and_iff_right ht, max_le_iff]
      simp [hpacing]
    · rw [over_headroom hlength hpacing hreset hfits] at hover
      exact absurd ht (not_le.mpr hover.1)

theorem Paced.used_nonneg {ramp : Ramp ℚ} (h : Paced quotaWindow reset used ramp)
    (hover : quotaWindow.Over (some reset) used now)
    (hpacing : quotaWindow.pacing = .afterHeadroom) : 0 ≤ used := by
  by_cases hnow : now < reset
  · exact ((h.overIff now hnow).mp hover).2 hpacing
  · exact le_trans zero_le_one (h.late now (not_lt.mp hnow) hover)

theorem Paced.retry_eq {ramp : Ramp ℚ} (h : Paced quotaWindow reset used ramp)
    (hretry : quotaWindow.retryAt (some reset) used = some retry) :
    retry = min (ramp.reaches used) reset := by
  rw [h.retryAt] at hretry
  exact (Option.some.inj hretry).symm

theorem Paced.over_iff {ramp : Ramp ℚ} (h : Paced quotaWindow reset used ramp)
    (hover : quotaWindow.Over (some reset) used now)
    (hretry : quotaWindow.retryAt (some reset) used = some retry) (ht : t < reset) :
    quotaWindow.Over (some reset) used t ↔ t ≤ retry := by
  have hlevel : ramp.level t ≤ used ↔ t ≤ min (ramp.reaches used) ramp.finish :=
    ramp.level_le_iff_of_lt (h.finish.symm ▸ ht)
  rw [h.finish, ← h.retry_eq hretry] at hlevel
  rw [h.overIff t ht, hlevel, and_iff_left (h.used_nonneg hover)]

/-- An allowance used up until the reset has the reset as its retry time. -/
theorem Paced.retry_eq_reset {ramp : Ramp ℚ} (h : Paced quotaWindow reset used ramp)
    (hover : quotaWindow.Over (some reset) used now)
    (hretry : quotaWindow.retryAt (some reset) used = some retry)
    (hall : ∀ t : ℚ, now ≤ t → t < reset → quotaWindow.Over (some reset) used t) :
    retry = reset := by
  have hle : retry ≤ reset := (h.retry_eq hretry).trans_le (min_le_right _ _)
  by_cases hnow : now < reset
  · by_contra hne
    have hlt : retry < reset := lt_of_le_of_ne hle hne
    have hfrom := (h.over_iff hover hretry hnow).mp hover
    obtain ⟨t, hafter, hbefore⟩ := exists_between hlt
    have hlater := hall t (hfrom.trans (le_of_lt hafter)) hbefore
    exact absurd ((h.over_iff hover hretry hbefore).mp hlater) (not_le.mpr hafter)
  · have hused := h.late now (not_lt.mp hnow) hover
    have hreaches := ramp.finish_le_reaches_iff.mpr hused
    rw [h.retry_eq hretry, min_eq_right (h.finish ▸ hreaches)]

theorem over_unset {resetsAt : Option Int} (h : ∀ reset, resetsAt = some reset → reset = 0) :
    quotaWindow.Over resetsAt used now ↔ quotaWindow.Over resetsAt used t := by
  have hlinear : ∀ p, rampLinearAt resetsAt p now = rampLinearAt resetsAt p t := by
    intro p
    cases resetsAt with
    | none => rfl
    | some reset => simp [rampLinearAt, h reset rfl]
  have hheadroom : ∀ p, rampAfterHeadroomAt resetsAt p now = rampAfterHeadroomAt resetsAt p t := by
    intro p
    cases resetsAt with
    | none => rfl
    | some reset => simp [rampAfterHeadroomAt, h reset rfl]
  simp only [QuotaWindow.Over, QuotaWindow.rampAt, hlinear, hheadroom]

theorem over_lengthMs {resetsAt : Option Int} (h : quotaWindow.Over resetsAt used t) :
    ∃ periodMs, quotaWindow.period.lengthMs resetsAt = some periodMs := by
  obtain ⟨allowed, hramp, -⟩ := h
  simp only [QuotaWindow.rampAt, Option.bind_eq_bind, Option.bind_eq_some_iff] at hramp
  obtain ⟨periodMs, hlength, -⟩ := hramp
  exact ⟨periodMs, hlength⟩

theorem Over.earlier (hcycles : quotaWindow.Cycles) {resetsAt : Option Int} (h : now ≤ t)
    (hover : quotaWindow.Over resetsAt used t) : quotaWindow.Over resetsAt used now := by
  by_cases hunset : ∀ reset, resetsAt = some reset → reset = 0
  · exact (over_unset hunset).mpr hover
  · push Not at hunset
    obtain ⟨reset, rfl, hreset⟩ := hunset
    obtain ⟨periodMs, hlength⟩ := over_lengthMs hover
    cases hpacing : quotaWindow.pacing with
    | linear =>
      have hpos := lengthMs_pos hcycles hlength
      rw [over_linear hlength hpacing hreset hpos] at hover ⊢
      exact (min_le_min_right 1 (Ramp.level_mono _ h)).trans hover
    | afterHeadroom =>
      have hfits := headroom_fits hpacing hlength
      rw [over_headroom hlength hpacing hreset hfits] at hover ⊢
      exact ⟨h.trans_lt hover.1, (max_le_max_right 0 (Ramp.level_mono _ h)).trans hover.2⟩

theorem Over.later (hcycles : quotaWindow.Cycles) (hover : quotaWindow.Over (some reset) used now)
    (hused : 1 ≤ used) (ht : t < reset) : quotaWindow.Over (some reset) used t := by
  by_cases hreset : reset = 0
  · exact (over_unset (by simp [hreset])).mp hover
  · obtain ⟨periodMs, hlength⟩ := over_lengthMs hover
    obtain ⟨ramp, hpaced⟩ := @paced quotaWindow reset used hcycles hreset (by simp [hlength])
    have hone : ramp.level t ≤ 1 :=
      (Ramp.level_le_one_iff _).mpr (hpaced.finish.symm ▸ le_of_lt ht)
    exact (hpaced.overIff t ht).mpr ⟨hone.trans hused, fun _ => zero_le_one.trans hused⟩

end

/-- The pacing holds work back at an instant: the row's usage is at or over its allowance. -/
def GatingRow.Blocks (quota : Quota) (row : GatingRow) (t : ℚ) : Prop :=
  (∀ reset, row.window.resetsAt = some reset → 0 < reset → t < reset) ∧
    ∃ reported, quota.effectiveUsed row.window = some reported ∧
      row.quotaWindow.Over row.window.resetsAt (reported + row.resv.gate) t

section
variable {quota : Quota} {row : GatingRow} {nowMs : Int} {now t : ℚ}

theorem expired_eq_false_iff : row.expired nowMs = false ↔
    ∀ reset, row.window.resetsAt = some reset → 0 < reset → (nowMs : ℚ) < reset := by
  unfold GatingRow.expired
  cases row.window.resetsAt with
  | none => simp
  | some reset => simp

theorem blocks_iff_active : row.Blocks quota nowMs ↔
    ∃ reported allowed, row.active quota nowMs = some (reported, allowed) ∧
      ¬ reported + row.resv.gate < allowed := by
  unfold GatingRow.Blocks GatingRow.active QuotaWindow.Over
  rw [← expired_eq_false_iff]
  simp only [rampAt_cast, not_lt]
  cases row.expired nowMs with
  | true => simp
  | false => simp [Option.bind_eq_some_iff, and_assoc]

theorem Blocks.earlier (hcycles : row.quotaWindow.Cycles) (h : now ≤ t)
    (hblocks : row.Blocks quota t) : row.Blocks quota now := by
  obtain ⟨hreset, reported, hused, hover⟩ := hblocks
  exact ⟨fun reset hr hpos => h.trans_lt (hreset reset hr hpos), reported, hused,
    Over.earlier hcycles h hover⟩

theorem firstOver_cons_of_not_blocks {rest : List GatingRow} (h : ¬ row.Blocks quota nowMs) :
    firstOver quota nowMs (row :: rest) = firstOver quota nowMs rest := by
  rw [firstOver]
  cases hactive : row.active quota nowMs with
  | none => rfl
  | some usage =>
    obtain ⟨reported, allowed⟩ := usage
    have hunder : reported + row.resv.gate < allowed := by
      by_contra hover
      exact h (blocks_iff_active.mpr ⟨reported, allowed, hactive, hover⟩)
    simp only [hunder, if_true]

theorem firstOver_cons_of_over {rest : List GatingRow} {reported allowed : ℚ}
    (hactive : row.active quota nowMs = some (reported, allowed))
    (hover : ¬ reported + row.resv.gate < allowed) :
    firstOver quota nowMs (row :: rest) =
      some { row := row, reported := reported, allowed := allowed } := by
  simp only [firstOver, hactive, hover, if_false]

theorem firstOver_eq_some {rows : List GatingRow} {first : OverRow}
    (h : firstOver quota nowMs rows = some first) :
    ∃ pre post, rows = pre ++ first.row :: post ∧ (∀ row ∈ pre, ¬ row.Blocks quota nowMs) ∧
      first.row.active quota nowMs = some (first.reported, first.allowed) ∧
        ¬ first.reported + first.row.resv.gate < first.allowed := by
  induction rows with
  | nil => cases h
  | cons row rest ih =>
    by_cases hblocks : row.Blocks quota nowMs
    · obtain ⟨reported, allowed, hactive, hover⟩ := blocks_iff_active.mp hblocks
      rw [firstOver_cons_of_over hactive hover] at h
      obtain rfl := Option.some.inj h
      exact ⟨[], rest, rfl, by simp, hactive, hover⟩
    · rw [firstOver_cons_of_not_blocks hblocks] at h
      obtain ⟨pre, post, rfl, hpre, hrest⟩ := ih h
      exact ⟨row :: pre, post, rfl, List.forall_mem_cons.mpr ⟨hblocks, hpre⟩, hrest⟩

theorem firstOver_append {pre post : List GatingRow} {reported allowed : ℚ}
    (hpre : ∀ row ∈ pre, ¬ row.Blocks quota nowMs)
    (hactive : row.active quota nowMs = some (reported, allowed))
    (hover : ¬ reported + row.resv.gate < allowed) :
    firstOver quota nowMs (pre ++ row :: post) =
      some { row := row, reported := reported, allowed := allowed } := by
  induction pre with
  | nil => exact firstOver_cons_of_over hactive hover
  | cons first pre ih =>
    rw [List.cons_append, firstOver_cons_of_not_blocks (hpre first (by simp))]
    exact ih fun row hrow => hpre row (by simp [hrow])

theorem denied_iff {windows : Windows} {resv : List Reservation} {prio : Bool} {reason : Text}
    {retry : ℚ} (h : decideInner quota windows resv prio nowMs = .denied reason (some retry)) :
    ∃ first, firstOver quota nowMs (gatingRows quota windows resv) = some first ∧
      verdictOver quota prio first.row first.reported first.allowed =
        .denied reason (some retry) := by
  unfold decideInner at h
  split at h
  · cases h
  · rw [decideRows_eq] at h
    cases hfirst : firstOver quota nowMs (gatingRows quota windows resv) with
    | none => simp [hfirst] at h
    | some first =>
      rw [hfirst] at h
      exact ⟨first, rfl, h⟩

theorem verdictOver_denied {prio : Bool} {reported allowed allowed' retry : ℚ} {reason : Text}
    (h : verdictOver quota prio row reported allowed = .denied reason (some retry)) :
    (∃ reason', verdictOver quota prio row reported allowed' = .denied reason' (some retry)) ∧
      (quota.isHardStop row.window = true →
        ∃ reset, row.window.resetsAt = some reset ∧ retry = reset) ∧
      (quota.isHardStop row.window = false →
        row.quotaWindow.retryAt row.window.resetsAt (reported + row.resv.gate) = some retry) := by
  unfold verdictOver at h ⊢
  dsimp only at h ⊢
  split at h
  · cases h
  · rename_i hcap
    simp only [Verdict.denied.injEq] at h
    refine ⟨⟨_, by rw [if_neg hcap, h.2]⟩, fun hstop => ?_, fun hstop => ?_⟩
    · cases hreset : row.window.resetsAt with
      | none => simp [hstop, hreset] at h
      | some reset => exact ⟨reset, rfl, by simpa [hstop, hreset, eq_comm] using h.2⟩
    · simpa [hstop] using h.2

/-- A retry time is exact: the pacing denies until it and passes after it, up to the reset. -/
structure RetryExact (quota : Quota) (row : GatingRow) (reset : Int) (now retry : ℚ) : Prop where
  denies : ∀ t, now ≤ t → t ≤ retry → t < reset → row.Blocks quota t
  passes : ∀ t, retry < t → t < reset → ¬ row.Blocks quota t
  atReset : (∀ t, now ≤ t → t < reset → row.Blocks quota t) → retry = reset

theorem gatingRows_cycles {provider : LlmProvider} {windows : Windows} {resv : List Reservation}
    (h : row ∈ gatingRows provider.quota windows resv) : row.quotaWindow.Cycles := by
  obtain ⟨w, hw, hrow⟩ := List.mem_flatMap.mp h
  obtain ⟨entry, -, rfl⟩ := List.mem_map.mp hrow
  exact provider_periods provider _ (List.of_mem_zip hw).1

theorem blocks_of_lt {reset : Int} {reported : ℚ} (hreset : row.window.resetsAt = some reset)
    (hused : quota.effectiveUsed row.window = some reported) (ht : t < reset) :
    row.Blocks quota t ↔
      row.quotaWindow.Over (some reset) (reported + row.resv.gate) t := by
  unfold GatingRow.Blocks
  simp [hreset, hused, ht]

theorem reset_of_retryAt {quotaWindow : QuotaWindow} {resetsAt : Option Int} {used retry : ℚ}
    (h : quotaWindow.retryAt resetsAt used = some retry) :
    ∃ reset, resetsAt = some reset ∧ reset ≠ 0 := by
  simp only [QuotaWindow.retryAt, Option.bind_eq_bind, Option.bind_eq_some_iff] at h
  obtain ⟨periodMs, -, h⟩ := h
  cases resetsAt with
  | none =>
    cases hpacing : quotaWindow.pacing <;>
      simp [hpacing, retryAtLinear, retryAtAfterHeadroom] at h
  | some reset =>
    refine ⟨reset, rfl, ?_⟩
    rintro rfl
    cases hpacing : quotaWindow.pacing <;>
      simp [hpacing, retryAtLinear, retryAtAfterHeadroom] at h

theorem retryExact_of_pacing {reset : Int} {reported retry : ℚ}
    (hcycles : row.quotaWindow.Cycles) (hreset : row.window.resetsAt = some reset)
    (hused : quota.effectiveUsed row.window = some reported)
    (hover : row.quotaWindow.Over (some reset) (reported + row.resv.gate) now)
    (hretry : row.quotaWindow.retryAt (some reset) (reported + row.resv.gate) = some retry) :
    RetryExact quota row reset now retry := by
  obtain ⟨_, hsome, hne⟩ := reset_of_retryAt hretry
  obtain rfl := Option.some.inj hsome
  obtain ⟨periodMs, hlength⟩ := over_lengthMs hover
  obtain ⟨ramp, hpaced⟩ := @paced _ reset (reported + row.resv.gate) hcycles hne (by simp [hlength])
  exact
    { denies := fun t _ hle ht =>
        (blocks_of_lt hreset hused ht).mpr ((hpaced.over_iff hover hretry ht).mpr hle)
      passes := fun t hlt ht hblocks => not_le.mpr hlt
        ((hpaced.over_iff hover hretry ht).mp ((blocks_of_lt hreset hused ht).mp hblocks))
      atReset := fun hall => hpaced.retry_eq_reset hover hretry fun t hnow ht =>
        (blocks_of_lt hreset hused ht).mp (hall t hnow ht) }

theorem retryExact_of_hardStop {reset : Int} (hcycles : row.quotaWindow.Cycles)
    (hreset : row.window.resetsAt = some reset) (hstop : quota.isHardStop row.window = true)
    (hgate : 0 ≤ row.resv.gate)
    (hover : row.quotaWindow.Over (some reset) (1 + row.resv.gate) now) :
    RetryExact quota row reset now reset := by
  have hused : quota.effectiveUsed row.window = some 1 := by simp [Quota.effectiveUsed, hstop]
  have hone : 1 ≤ 1 + row.resv.gate := le_add_of_nonneg_right hgate
  exact
    { denies := fun t _ _ ht =>
        (blocks_of_lt hreset hused ht).mpr (Over.later hcycles hover hone ht)
      passes := fun t hlt ht _ => absurd hlt (not_lt.mpr (le_of_lt ht))
      atReset := fun _ => rfl }

/-- A denial for the pacing names the exact time the row that denies stops denying; as long as it
denies, so does the whole decision, with the same retry time. A hard stop holds until the reset. -/
theorem denial_retryAt (provider : LlmProvider) (windows : Windows) (resv : List Reservation)
    (prio : Bool) (nowMs : Int) (reason : Text) (retry : ℚ)
    (h : decideInner provider.quota windows resv prio nowMs = .denied reason (some retry)) :
    ∃ row ∈ gatingRows provider.quota windows resv, ∃ reset,
      row.window.resetsAt = some reset ∧ row.Blocks provider.quota nowMs ∧
      (provider.quota.isHardStop row.window = false →
        RetryExact provider.quota row reset nowMs retry) ∧
      (provider.quota.isHardStop row.window = true → retry = reset ∧
        (0 ≤ row.resv.gate → RetryExact provider.quota row reset nowMs retry)) ∧
      ∀ t : Int, nowMs ≤ t → row.Blocks provider.quota t → ∃ reason',
        decideInner provider.quota windows resv prio t = .denied reason' (some retry) := by
  obtain ⟨first, hfirst, hverdict⟩ := denied_iff h
  obtain ⟨pre, post, hrows, hpre, hactive, hover⟩ := firstOver_eq_some hfirst
  have hmem : first.row ∈ gatingRows provider.quota windows resv := by simp [hrows]
  have hcycles := gatingRows_cycles hmem
  have hblocks := blocks_iff_active.mpr ⟨_, _, hactive, hover⟩
  obtain ⟨-, hhard, hretry⟩ := @verdictOver_denied _ _ _ _ _ 0 _ _ hverdict
  obtain ⟨reset, hreset⟩ : ∃ reset, first.row.window.resetsAt = some reset := by
    cases hstop : provider.quota.isHardStop first.row.window with
    | true =>
      obtain ⟨reset, hreset, -⟩ := hhard hstop
      exact ⟨reset, hreset⟩
    | false =>
      obtain ⟨reset, hreset, -⟩ := reset_of_retryAt (hretry hstop)
      exact ⟨reset, hreset⟩
  have hused := (active_eq_some hactive).1
  have hnow : first.row.quotaWindow.Over (some reset)
      (first.reported + first.row.resv.gate) nowMs := by
    obtain ⟨-, reported, hused', hover'⟩ := hblocks
    rw [hused] at hused'
    rwa [← Option.some.inj hused', hreset] at hover'
  refine ⟨first.row, hmem, reset, hreset, hblocks, fun hstop => ?_, fun hstop => ?_,
    fun t ht hlater => ?_⟩
  · exact retryExact_of_pacing hcycles hreset hused hnow (hreset ▸ hretry hstop)
  · obtain ⟨_, hsame, rfl⟩ := hhard hstop
    rw [hreset] at hsame
    obtain rfl := Option.some.inj hsame
    have hwhole : first.reported = 1 := by
      simpa [Quota.effectiveUsed, hstop, eq_comm] using hused
    rw [hwhole] at hnow
    exact ⟨rfl, fun hgate => retryExact_of_hardStop hcycles hreset hstop hgate hnow⟩
  · -- The rows before it have not come to block, so this row decides again.
    obtain ⟨reported, allowed, hactive', hover'⟩ := blocks_iff_active.mp hlater
    have hsame : reported = first.reported := by
      have hused' := (active_eq_some hactive').1
      rw [hused] at hused'
      exact (Option.some.inj hused').symm
    subst hsame
    have hpre' : ∀ row ∈ pre, ¬ row.Blocks provider.quota (t : ℚ) := by
      intro row hrow hblocks'
      have hin : row ∈ gatingRows provider.quota windows resv := by simp [hrows, hrow]
      exact hpre row hrow (Blocks.earlier (gatingRows_cycles hin) (by exact_mod_cast ht) hblocks')
    obtain ⟨⟨reason', hagain⟩, -⟩ := @verdictOver_denied _ _ _ _ _ allowed _ _ hverdict
    refine ⟨reason', ?_⟩
    have hnonempty : windows.rows.isEmpty = false := by
      cases hempty : windows.rows with
      | nil => simp [gatingRows_eq_nil hempty] at hmem
      | cons _ _ => rfl
    rw [decideInner, hnonempty, decideRows_eq, hrows, firstOver_append hpre' hactive' hover']
    simpa using hagain

end

def Verdict.retryAt? : Verdict → Option ℚ
  | .denied _ retryAt => retryAt
  | .granted _ _ => none

/-- Half the week's quota used at the week's start is allowed again after half the week. -/
theorem denial_retryAt_halfWeek :
    ∃ row ∈ gatingRows LlmProvider.anthropic.quota exhaustedSnapshot idleReservations.list,
      ∃ reset, RetryExact LlmProvider.anthropic.quota row reset (weekMs : Int)
        ((weekMs + weekMs / 2 : Int) : ℚ) := by
  have hretry : (decideInner LlmProvider.anthropic.quota exhaustedSnapshot idleReservations.list
      false weekMs).retryAt? = some ((weekMs + weekMs / 2 : Int) : ℚ) := by decide +kernel
  have hgates : ∀ row ∈ gatingRows LlmProvider.anthropic.quota exhaustedSnapshot
      idleReservations.list, 0 ≤ row.resv.gate := by decide +kernel
  cases hverdict : decideInner LlmProvider.anthropic.quota exhaustedSnapshot idleReservations.list
      false weekMs with
  | granted cap reason => simp [hverdict, Verdict.retryAt?] at hretry
  | denied reason retry =>
    rw [hverdict] at hretry
    obtain rfl : retry = some ((weekMs + weekMs / 2 : Int) : ℚ) := hretry
    obtain ⟨row, hrow, reset, -, -, hpacing, hstop, -⟩ := denial_retryAt .anthropic
      exhaustedSnapshot idleReservations.list false weekMs reason _ hverdict
    refine ⟨row, hrow, reset, ?_⟩
    cases hhard : LlmProvider.anthropic.quota.isHardStop row.window with
    | true => exact (hstop hhard).2 (hgates row hrow)
    | false => exact hpacing hhard

end Hunter.Scavenge
