import Hunter.Keyed
import Hunter.Scavenge.RetryTimes
import Hunter.Scavenge.Windows

set_option autoImplicit false

namespace Hunter.Scavenge
open Checked

section
variable {periodMs nowMs newResets newRecorded : Int} {fuel : Nat}

theorem rollForward_done (h : nowMs < newResets) :
    rollForward periodMs nowMs (fuel + 1) newResets newRecorded = .ok (newResets, newRecorded) := by
  rw [rollForward, if_neg (by omega)]
  rfl

theorem rollForward_next (h : newResets ≤ nowMs) (hfit : i64.Holds (newResets + periodMs)) :
    rollForward periodMs nowMs (fuel + 1) newResets newRecorded =
      rollForward periodMs nowMs fuel (newResets + periodMs) newResets := by
  rw [rollForward, if_pos h, Width.fit, if_pos hfit]
  rfl

theorem turns_next (hp : 0 < periodMs) :
    (nowMs - (newResets + periodMs)) / periodMs = (nowMs - newResets) / periodMs - 1 := by
  have hshift : nowMs - (newResets + periodMs) = nowMs - newResets + -1 * periodMs := by ring
  rw [hshift, Int.add_mul_ediv_right _ _ hp.ne']
  ring

/-- The loop ends in the cycle that now lies in. -/
theorem rollForward_spec (hp : 0 < periodMs) (hfit : i64.Holds (nowMs + periodMs))
    (hpos : 0 < newResets) (hdue : newResets ≤ nowMs)
    (hfuel : (nowMs - newResets) / periodMs + 1 < fuel) :
    ∃ reset, rollForward periodMs nowMs fuel newResets newRecorded =
        .ok (reset, reset - periodMs) ∧
      newResets ≤ reset - periodMs ∧ reset - periodMs ≤ nowMs ∧ nowMs < reset ∧
      reset % periodMs = newResets % periodMs := by
  induction fuel generalizing newResets newRecorded with
  | zero =>
    have hturns : 0 ≤ (nowMs - newResets) / periodMs :=
      Int.ediv_nonneg (by omega) hp.le
    omega
  | succ fuel ih =>
    have hnext : i64.Holds (newResets + periodMs) := by
      simp only [holds_i64] at hfit ⊢
      omega
    have hcongr : (newResets + periodMs) % periodMs = newResets % periodMs :=
      Int.add_emod_right _ _
    rw [rollForward_next hdue hnext]
    by_cases hmore : newResets + periodMs ≤ nowMs
    · have hturns := @turns_next periodMs nowMs newResets hp
      obtain ⟨reset, hroll, hstart, hnow, hend, hmod⟩ :=
        @ih (newResets + periodMs) newResets (by omega) hmore (by push_cast at hfuel; omega)
      exact ⟨reset, hroll, by omega, hnow, hend, hmod.trans hcongr⟩
    · have hturns : 0 ≤ (nowMs - newResets) / periodMs :=
        Int.ediv_nonneg (by omega) hp.le
      obtain ⟨fuel, rfl⟩ : ∃ k, fuel = k + 1 := ⟨fuel - 1, by push_cast at hfuel; omega⟩
      refine ⟨newResets + periodMs, ?_, by omega, by omega, by omega, hcongr⟩
      rw [rollForward_done (by omega), Int.add_sub_cancel]

end

def rollPeriod (quota : Quota) (limitId : Text) : Option Int :=
  (quota.window limitId).bind fun quotaWindow => quotaWindow.period.fixedMs

namespace UsageRow

/-- Other limits are read where the provider says so. -/
def Read (quota : Quota) (row : UsageRow) : Prop :=
  quota.readsOtherLimits = true ∨ (quota.gatingWindow row.limitId).isSome

def Expired (nowMs : Int) (row : UsageRow) : Prop :=
  ∃ r, row.resetsAt = some r ∧ 0 < r ∧ r ≤ nowMs

def verbatim (nowMs : Int) (row : UsageRow) : WindowState :=
  ⟨row.limitId, row.usedFraction, row.status, row.resetsAt, row.recordedAt,
    ((nowMs - row.recordedAt : Int) : ℚ) / 1000⟩

/-- The end of the cycle a row is rolled into, and the age of a row that is kept, are 64-bit. -/
structure InRange (quota : Quota) (nowMs : Int) (row : UsageRow) : Prop where
  rolled : ∀ period, rollPeriod quota row.limitId = some period → row.Expired nowMs →
    i64.Holds (nowMs + period)
  kept : row.Read quota → ¬ row.Expired nowMs → i64.Holds (nowMs - row.recordedAt)

end UsageRow

section
variable {quota : Quota} {nowMs : Int} {fuel : Nat} {row : UsageRow}

theorem ageS_eq {recordedAt : Int} (h : i64.Holds (nowMs - recordedAt)) :
    ageS nowMs recordedAt = .ok (((nowMs - recordedAt : Int) : ℚ) / 1000) := by
  rw [ageS, Width.fit, if_pos h]
  rfl

theorem readRow_unread (h : ¬ row.Read quota) : readRow quota nowMs fuel row = .ok none := by
  simp only [UsageRow.Read, not_or, Bool.not_eq_true, Option.isSome_eq_false_iff] at h
  obtain ⟨hother, hgating⟩ := h
  rw [readRow, hother, hgating]
  rfl

theorem readRow_read (h : row.Read quota) :
    (!quota.readsOtherLimits && (quota.gatingWindow row.limitId).isNone) = false := by
  obtain hother | hgating := h
  · simp [hother]
  · rw [Bool.and_eq_false_iff]
    right
    simpa using hgating

theorem readRow_kept (hread : row.Read quota) (hexpired : ¬ row.Expired nowMs)
    (hage : i64.Holds (nowMs - row.recordedAt)) :
    readRow quota nowMs fuel row = .ok (some (row.verbatim nowMs)) := by
  have hkeep : keepRow nowMs row = .ok (some (row.verbatim nowMs)) := by
    rw [keepRow, ageS_eq hage]
    rfl
  rw [readRow, readRow_read hread]
  simp only [Bool.false_eq_true, if_false]
  cases hr : row.resetsAt with
  | none => exact hkeep
  | some r =>
    have hdue : ¬ (0 < r ∧ r ≤ nowMs) := fun h => hexpired ⟨r, hr, h⟩
    simp only [hdue, if_false]
    exact hkeep

theorem readRow_dropped (hread : row.Read quota) (hexpired : row.Expired nowMs)
    (hperiod : rollPeriod quota row.limitId = none) :
    readRow quota nowMs fuel row = .ok none := by
  obtain ⟨r, hr, hdue⟩ := hexpired
  rw [rollPeriod] at hperiod
  rw [readRow, readRow_read hread]
  simp only [Bool.false_eq_true, if_false, hr, hdue, and_self, if_true, hperiod]
  rfl

/-- A window in its current cycle: unused, from its start to its end one period later. -/
structure Rolled (row : UsageRow) (nowMs period stored : Int) (window : WindowState) : Prop where
  limitId : window.limitId = row.limitId
  unused : window.usedFraction = some 0 ∧ window.status = some "ok".toList
  started : window.recordedAt ≤ nowMs
  resets : window.resetsAt = some (window.recordedAt + period)
  ends : nowMs < window.recordedAt + period
  congruent : (window.recordedAt + period) % period = stored % period

theorem readRow_rolled {r period : Int} (hread : row.Read quota) (hr : row.resetsAt = some r)
    (hdue : 0 < r ∧ r ≤ nowMs) (hperiod : rollPeriod quota row.limitId = some period)
    (hpos : 0 < period) (hfit : i64.Holds (nowMs + period)) (hfuel : nowMs.toNat + 2 ≤ fuel) :
    ∃ window, readRow quota nowMs fuel row = .ok (some window) ∧
      Rolled row nowMs period r window := by
  have hturns : (nowMs - r) / period ≤ nowMs - r := Int.ediv_le_self _ (by omega)
  obtain ⟨reset, hroll, hstart, hnow, hend, hmod⟩ :=
    @rollForward_spec period nowMs r row.recordedAt fuel hpos hfit hdue.1 hdue.2 (by omega)
  have hage : i64.Holds (nowMs - (reset - period)) := by
    simp only [holds_i64] at hfit ⊢
    omega
  rw [rollPeriod] at hperiod
  refine ⟨⟨row.limitId, some 0, some "ok".toList, some reset, reset - period,
    ((nowMs - (reset - period) : Int) : ℚ) / 1000⟩, ?_, ?_⟩
  · rw [readRow, readRow_read hread]
    simp only [Bool.false_eq_true, if_false, hr, hdue, and_self, if_true, hperiod, hroll]
    refine bind_eq_ok.mpr ⟨_, rfl, ?_⟩
    rw [ageS_eq hage]
    rfl
  · refine ⟨rfl, ⟨rfl, rfl⟩, hnow, ?_, ?_, ?_⟩
    · simp
    · simpa using hend
    · simpa using hmod

end

inductive Outcome (quota : Quota) (nowMs : Int) (row : UsageRow) : Option WindowState → Prop where
  | unread : ¬ row.Read quota → Outcome quota nowMs row none
  | kept : row.Read quota → ¬ row.Expired nowMs →
      Outcome quota nowMs row (some (row.verbatim nowMs))
  | dropped : row.Read quota → row.Expired nowMs → rollPeriod quota row.limitId = none →
      Outcome quota nowMs row none
  | rolled (r period : Int) (window : WindowState) : row.resetsAt = some r →
      0 < r ∧ r ≤ nowMs → rollPeriod quota row.limitId = some period →
      Rolled row nowMs period r window → Outcome quota nowMs row (some window)

section
variable {provider : LlmProvider} {nowMs : Int} {fuel : Nat} {row : UsageRow}

theorem read_of_rollPeriod {quota : Quota} {period : Int}
    (h : rollPeriod quota row.limitId = some period) : row.Read quota := by
  obtain ⟨quotaWindow, hwindow, -⟩ := Option.bind_eq_some_iff.mp h
  have hmem := List.mem_of_find?_eq_some hwindow
  have hself : quotaWindow.limitId = row.limitId := by
    simpa using List.find?_some hwindow
  right
  rw [Quota.gatingWindow, List.find?_isSome]
  exact ⟨quotaWindow, hmem, by simp [QuotaWindow.gates, hself]⟩

theorem rollPeriod_pos {period : Int} (h : rollPeriod provider.quota row.limitId = some period) :
    0 < period := by
  obtain ⟨quotaWindow, hwindow, hfixed⟩ := Option.bind_eq_some_iff.mp h
  have hcycles := provider_periods provider quotaWindow (List.mem_of_find?_eq_some hwindow)
  cases hperiod : quotaWindow.period with
  | fixed p =>
    rw [hperiod] at hfixed
    cases hfixed
    exact hcycles _ hperiod
  | calendarMonth =>
    rw [hperiod] at hfixed
    cases hfixed

theorem readRow_outcome (hrange : row.InRange provider.quota nowMs)
    (hfuel : nowMs.toNat + 2 ≤ fuel) :
    ∃ out, readRow provider.quota nowMs fuel row = .ok out ∧
      Outcome provider.quota nowMs row out := by
  by_cases hread : row.Read provider.quota
  · by_cases hexpired : row.Expired nowMs
    · cases hperiod : rollPeriod provider.quota row.limitId with
      | none =>
        exact ⟨none, readRow_dropped hread hexpired hperiod, .dropped hread hexpired hperiod⟩
      | some period =>
        have hfit := hrange.rolled period hperiod hexpired
        obtain ⟨r, hr, hdue⟩ := hexpired
        obtain ⟨window, hwindow, hrolled⟩ :=
          readRow_rolled hread hr hdue hperiod (rollPeriod_pos hperiod) hfit hfuel
        exact ⟨some window, hwindow, .rolled r period window hr hdue hperiod hrolled⟩
    · exact ⟨_, readRow_kept hread hexpired (hrange.kept hread hexpired), .kept hread hexpired⟩
  · exact ⟨none, readRow_unread hread, .unread hread⟩

theorem Outcome.limitId {quota : Quota} {window : WindowState}
    (h : Outcome quota nowMs row (some window)) : window.limitId = row.limitId := by
  cases h with
  | kept => rfl
  | rolled r period window hr hdue hperiod hrolled => exact hrolled.limitId

theorem Outcome.not_expired {quota : Quota} {window : WindowState}
    (h : Outcome quota nowMs row (some window)) :
    ¬ ∃ r, window.resetsAt = some r ∧ 0 < r ∧ r ≤ nowMs := by
  cases h with
  | kept hread hexpired => exact hexpired
  | rolled r period window hr hdue hperiod hrolled =>
    rintro ⟨reset, hreset, -, hpast⟩
    have hends := hrolled.ends
    rw [hrolled.resets] at hreset
    cases hreset
    omega

end

def insertAll (f : UsageRow → Option WindowState) : List UsageRow → Windows → Windows
  | [], result => result
  | row :: rows, result =>
    match f row with
    | none => insertAll f rows result
    | some window => insertAll f rows (result.insert window)

section
variable {quota : Quota} {nowMs : Int} {fuel : Nat} {rows : List UsageRow}
  {f : UsageRow → Option WindowState} {result : Windows}

theorem readRows_eq (hf : ∀ row ∈ rows, readRow quota nowMs fuel row = .ok (f row)) :
    readRows quota nowMs fuel (rows.map some) result = .ok (insertAll f rows result) := by
  induction rows generalizing result with
  | nil => rfl
  | cons row rows ih =>
    have hrow := hf row (by simp)
    have hrest := fun row hrow => hf row (List.mem_cons_of_mem _ hrow)
    rw [List.map_cons, readRows, hrow, insertAll]
    cases hwindow : f row with
    | none =>
      refine bind_eq_ok.mpr ⟨_, rfl, ?_⟩
      exact ih hrest
    | some window =>
      refine bind_eq_ok.mpr ⟨_, rfl, ?_⟩
      exact ih hrest

theorem Windows.get_insert (windows : Windows) (window : WindowState) (limitId : Text) :
    (windows.insert window).get limitId =
      if limitId = window.limitId then some window else windows.get limitId := by
  have hget := @SortedMap.get_insert _ _ _ window.limitId limitId window windows.rows
  simp only [SortedMap.get] at hget
  simp only [Windows.get, Windows.insert]
  convert hget

theorem get_insertAll (hkeys : ∀ row ∈ rows, ∀ w, f row = some w → w.limitId = row.limitId)
    (hdistinct : (rows.map UsageRow.limitId).Nodup) (limitId : Text) :
    (insertAll f rows result).get limitId =
      ((rows.find? fun row => row.limitId = limitId).bind f).or (result.get limitId) := by
  induction rows generalizing result with
  | nil => rfl
  | cons row rows ih =>
    obtain ⟨hnew, hrows⟩ := List.nodup_cons.mp hdistinct
    have hrest (windows : Windows) :=
      @ih windows (fun row hrow => hkeys row (List.mem_cons_of_mem _ hrow)) hrows
    have hkey := hkeys row (by simp)
    have hlater : rows.find? (fun other => other.limitId = row.limitId) = none := by
      rw [List.find?_eq_none]
      intro other hother hsame
      exact hnew (List.mem_map.mpr ⟨other, hother, of_decide_eq_true hsame⟩)
    rw [insertAll]
    cases hwindow : f row with
    | none =>
      rw [hrest]
      by_cases hrow : row.limitId = limitId
      · subst hrow
        simp [hlater, hwindow]
      · simp [hrow]
    | some window =>
      rw [hrest, Windows.get_insert, hkey window hwindow]
      by_cases hrow : row.limitId = limitId
      · subst hrow
        simp [hlater, hwindow]
      · simp [hrow, Ne.symm hrow]

end

/-- Every map entry is what became of a row, and every row is accounted for. -/
theorem readWindows_outcomes (provider : LlmProvider) (snapshot : Snapshot)
    {rows : List UsageRow} {nowMs : Int} {fuel : Nat} (hrows : snapshot.rows = rows.map some)
    (hrange : ∀ row ∈ rows, row.InRange provider.quota nowMs)
    (hfuel : nowMs.toNat + 2 ≤ fuel) :
    ∃ windows, readWindows (some snapshot) provider nowMs fuel = .ok windows ∧
      (∀ row ∈ rows, Outcome provider.quota nowMs row (windows.get row.limitId)) ∧
      ∀ limitId window, windows.get limitId = some window →
        ∃ row ∈ rows, row.limitId = limitId := by
  have hdistinct : (rows.map UsageRow.limitId).Nodup := by
    have h := snapshot.distinct
    rw [hrows] at h
    simpa [List.filterMap_map] using h
  obtain ⟨f, hf⟩ : ∃ f : UsageRow → Option WindowState, ∀ row ∈ rows,
      readRow provider.quota nowMs fuel row = .ok (f row) ∧
        Outcome provider.quota nowMs row (f row) := by
    refine ⟨fun row => (readRow provider.quota nowMs fuel row).toOption.join, ?_⟩
    intro row hrow
    obtain ⟨out, hout, houtcome⟩ := readRow_outcome (hrange row hrow) hfuel
    simpa only [hout, Except.toOption, Option.join_some, true_and] using houtcome
  have hkeys : ∀ row ∈ rows, ∀ w, f row = some w → w.limitId = row.limitId := by
    intro row hrow w hw
    have hout := (hf row hrow).2
    rw [hw] at hout
    exact hout.limitId
  have hget (limitId : Text) : (insertAll f rows Windows.empty).get limitId =
      (rows.find? fun row => row.limitId = limitId).bind f := by
    rw [get_insertAll hkeys hdistinct]
    exact Option.or_none
  refine ⟨insertAll f rows Windows.empty, ?_, ?_, ?_⟩
  · rw [readWindows, hrows, readRows_eq fun row hrow => (hf row hrow).1]
  · intro row hrow
    have hfind : rows.find? (fun other => other.limitId = row.limitId) = some row :=
      (Keyed.lookup_eq_some_iff hdistinct).mpr ⟨hrow, rfl⟩
    rw [hget, hfind]
    exact (hf row hrow).2
  · intro limitId window hwindow
    rw [hget] at hwindow
    obtain ⟨row, hfind, -⟩ := Option.bind_eq_some_iff.mp hwindow
    exact ⟨row, List.mem_of_find?_eq_some hfind, by simpa using List.find?_some hfind⟩

/-- Every expired row of a fixed-period window is rolled into its current cycle, whatever the gap;
no row comes back expired, and one of a limit that is read comes back as it is until it expires. -/
theorem windows_roll_forward (provider : LlmProvider) (snapshot : Snapshot)
    (rows : List UsageRow) (nowMs : Int) (fuel : Nat) (hrows : snapshot.rows = rows.map some)
    (hrange : ∀ row ∈ rows, row.InRange provider.quota nowMs)
    (hfuel : nowMs.toNat + 2 ≤ fuel) :
    ∃ windows, readWindows (some snapshot) provider nowMs fuel = .ok windows ∧
      (∀ limitId window, windows.get limitId = some window →
        ¬ ∃ r, window.resetsAt = some r ∧ 0 < r ∧ r ≤ nowMs) ∧
      (∀ row ∈ rows, row.Read provider.quota → ¬ row.Expired nowMs →
        windows.get row.limitId = some (row.verbatim nowMs)) ∧
      ∀ row ∈ rows, ∀ r period, row.resetsAt = some r → 0 < r ∧ r ≤ nowMs →
        rollPeriod provider.quota row.limitId = some period →
          ∃ window, windows.get row.limitId = some window ∧
            Rolled row nowMs period r window := by
  obtain ⟨windows, hwindows, houtcomes, hsource⟩ :=
    readWindows_outcomes provider snapshot hrows hrange hfuel
  refine ⟨windows, hwindows, ?_, ?_, ?_⟩
  · intro limitId window hwindow
    obtain ⟨row, hrow, rfl⟩ := hsource limitId window hwindow
    have hout := houtcomes row hrow
    rw [hwindow] at hout
    exact hout.not_expired
  · intro row hrow hread hexpired
    have hout := houtcomes row hrow
    generalize windows.get row.limitId = out at hout ⊢
    cases hout with
    | unread hnot => exact absurd hread hnot
    | kept _ _ => rfl
    | dropped _ hpast _ => exact absurd hpast hexpired
    | rolled r period window hr hdue _ _ => exact absurd ⟨r, hr, hdue⟩ hexpired
  · intro row hrow r period hr hdue hperiod
    have hout := houtcomes row hrow
    generalize windows.get row.limitId = out at hout ⊢
    cases hout with
    | unread hnot => exact absurd (read_of_rollPeriod hperiod) hnot
    | kept _ hexpired => exact absurd ⟨r, hr, hdue⟩ hexpired
    | dropped _ _ hnone =>
      rw [hperiod] at hnone
      cases hnone
    | rolled r' period' window hr' _ hperiod' hrolled =>
      obtain rfl : r = r' := Option.some.inj (hr.symm.trans hr')
      obtain rfl : period = period' := Option.some.inj (hperiod.symm.trans hperiod')
      exact ⟨window, rfl, hrolled⟩

def staleRow : UsageRow := ⟨"anthropic:5h".toList, some (1 / 2), some "ok".toList, some 1000, 0⟩

def staleSnapshot : Snapshot := ⟨[some staleRow], by decide⟩

theorem stale_window_rolls_forward :
    ∃ windows window, readWindows (some staleSnapshot) .anthropic 1800000000000 1800000000002 =
        .ok windows ∧ windows.get staleRow.limitId = some window ∧
      Rolled staleRow 1800000000000 fiveHMs 1000 window := by
  have hperiod : rollPeriod LlmProvider.anthropic.quota staleRow.limitId = some fiveHMs := by
    decide +kernel
  have hrange : ∀ row ∈ [staleRow], row.InRange LlmProvider.anthropic.quota 1800000000000 := by
    intro row hrow
    obtain rfl := List.mem_singleton.mp hrow
    refine ⟨fun period h _ => ?_, fun _ hkept => absurd ⟨1000, rfl, by decide, by decide⟩ hkept⟩
    obtain rfl : fiveHMs = period := Option.some.inj (hperiod.symm.trans h)
    decide
  obtain ⟨windows, hwindows, -, -, hrolled⟩ := windows_roll_forward .anthropic staleSnapshot
    [staleRow] 1800000000000 1800000000002 rfl hrange (by decide)
  obtain ⟨window, hwindow, hspec⟩ := hrolled staleRow (List.mem_singleton.mpr rfl) 1000 fiveHMs rfl
    (by decide) hperiod
  exact ⟨windows, window, hwindows, hwindow, hspec⟩

def chatRow : UsageRow := ⟨"copilot:chat".toList, some 0, some "ok".toList, none, 0⟩

def chatSnapshot : Snapshot := ⟨[some chatRow], by decide⟩

theorem chat_row_not_returned : ¬ chatRow.Expired 0 ∧
    ∀ fuel, readWindows (some chatSnapshot) .gitHubCopilot 0 fuel = .ok Windows.empty := by
  constructor
  · rintro ⟨r, hr, -⟩
    cases hr
  · intro fuel
    have hunread : ¬ chatRow.Read LlmProvider.gitHubCopilot.quota := by
      have hgating : LlmProvider.gitHubCopilot.quota.gatingWindow chatRow.limitId = none := by
        decide +kernel
      rintro (hother | hsome)
      · cases hother
      · rw [hgating] at hsome
        cases hsome
    have hrow := @readRow_unread LlmProvider.gitHubCopilot.quota 0 fuel chatRow hunread
    have hrows := @readRows_eq LlmProvider.gitHubCopilot.quota 0 fuel [chatRow] (fun _ => none)
      Windows.empty (fun row hrow' => List.mem_singleton.mp hrow' ▸ hrow)
    rw [readWindows, show chatSnapshot.rows = [chatRow].map some from rfl, hrows]
    rfl

end Hunter.Scavenge
