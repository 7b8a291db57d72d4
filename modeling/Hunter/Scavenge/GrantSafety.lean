import Hunter.Scavenge.Facade
set_option autoImplicit false

namespace Hunter.Scavenge

/-- A grant touches no hard stop, and a finite cap fits the headroom of every active row. -/
def GrantSafe (quota : Quota) (nowMs : Int) (rows : List GatingRow) : Verdict → Prop
  | .denied _ _ => True
  | .granted capTokens _ =>
    ∀ row ∈ rows, ∀ used allowed, row.active quota nowMs = some (used, allowed) →
      quota.isHardStop row.window = false ∧
      ∀ cap, capTokens = some cap →
        (cap : ℚ) ≤ max 0 (1 - used - row.resv.budget) * row.resv.capacity

def Verdict.capTokens? : Verdict → Option (Option Int)
  | .granted capTokens _ => some capTokens
  | .denied _ _ => none

theorem hardStop_of_grantSafe {quota : Quota} {nowMs : Int} {rows : List GatingRow}
    {verdict : Verdict} {cap : Option Int} {row : GatingRow} {usage : ℚ × ℚ}
    (hsafe : GrantSafe quota nowMs rows verdict) (hcap : verdict.capTokens? = some cap)
    (hmem : row ∈ rows) (hactive : row.active quota nowMs = some usage) :
    quota.isHardStop row.window = false := by
  cases verdict with
  | denied _ _ => cases hcap
  | granted _ _ => exact (hsafe row hmem usage.1 usage.2 hactive).1

/-- Both verdicts of a decision are safe for the rows its reservations gate. -/
def DecisionSafe (provider : LlmProvider)
    (reserve : Windows → Int → Except Text (Reservations provider.quota)) (windows : Windows)
    (anticipatedTokens : Int) (now : Int) : Prop :=
  ∀ resv outlook, reserve windows anticipatedTokens = .ok resv →
    decideWithWindows provider reserve windows anticipatedTokens now = .ok outlook →
    GrantSafe provider.quota now (gatingRows provider.quota windows resv.list) outlook.normal ∧
    GrantSafe provider.quota now (gatingRows provider.quota windows resv.list) outlook.prioritized

structure OverRow where
  row : GatingRow
  reported : ℚ
  allowed : ℚ

def firstOver (quota : Quota) (nowMs : Int) : List GatingRow → Option OverRow
  | [] => none
  | row :: rest =>
    match row.active quota nowMs with
    | none => firstOver quota nowMs rest
    | some (reported, allowed) =>
      if reported + row.resv.gate < allowed then firstOver quota nowMs rest
      else some { row := row, reported := reported, allowed := allowed }

theorem decideRows_eq (quota : Quota) (prio : Bool) (nowMs : Int) (rows : List GatingRow) :
    decideRows quota prio nowMs rows =
      (firstOver quota nowMs rows).map fun first =>
        verdictOver quota prio first.row first.reported first.allowed := by
  induction rows with
  | nil => rfl
  | cons row rest ih =>
    simp only [decideRows, firstOver]
    cases row.active quota nowMs with
    | none => exact ih
    | some usage =>
      obtain ⟨reported, allowed⟩ := usage
      dsimp only
      split
      · exact ih
      · rfl

theorem gatingRows_eq_nil {quota : Quota} {windows : Windows} {resv : List Reservation}
    (h : windows.rows = []) : gatingRows quota windows resv = [] := by
  simp [gatingRows, h]

theorem active_eq_some {quota : Quota} {nowMs : Int} {row : GatingRow} {used allowed : ℚ}
    (h : row.active quota nowMs = some (used, allowed)) :
    quota.effectiveUsed row.window = some used ∧
      row.quotaWindow.ramp row.window.resetsAt nowMs = some allowed := by
  simp only [GatingRow.active] at h
  split at h
  · cases h
  · simpa [Option.bind_eq_some_iff] using h

/-- `Reservation::tokens` never rounds a headroom up. -/
theorem tokens_le {resv : Reservation} {left frac : ℚ} (hcap : 0 ≤ resv.capacity)
    (h : left ≤ frac) : (resv.tokens (max left 0) : ℚ) ≤ max 0 frac * resv.capacity := by
  have hle : max left 0 ≤ max 0 frac := by
    rw [max_comm]; exact max_le_max_left 0 h
  have hnonneg : 0 ≤ max left 0 * resv.capacity := mul_nonneg (le_max_right _ _) hcap
  exact le_trans (castI64_le hnonneg) (mul_le_mul_of_nonneg_right hle hcap)

theorem cap_of_active {quota : Quota} {nowMs : Int} {row : GatingRow} {used allowed : ℚ}
    (prio : Bool) (h : row.active quota nowMs = some (used, allowed)) :
    row.cap quota prio nowMs = some (row.resv.tokens
      (max ((if prio then 1 else allowed) - used - row.resv.budget) 0)) := by
  obtain ⟨hused, hramp⟩ := active_eq_some h
  simp [GatingRow.cap, hused, hramp]

theorem computeHeadroom_le {quota : Quota} {windows : Windows} {resv : List Reservation}
    {prio : Bool} {nowMs : Int} {cap : Int} {row : GatingRow} {used allowed : ℚ}
    (hcap : computeHeadroom quota windows resv prio nowMs = some cap)
    (hmem : row ∈ gatingRows quota windows resv) (hnonneg : 0 ≤ row.resv.capacity)
    (hactive : row.active quota nowMs = some (used, allowed)) :
    (cap : ℚ) ≤ max 0 (1 - used - row.resv.budget) * row.resv.capacity := by
  have hrow := cap_of_active prio hactive
  have hin := List.mem_filterMap.mpr ⟨row, hmem, hrow⟩
  have hmin : cap ≤ row.resv.tokens
      (max ((if prio then 1 else allowed) - used - row.resv.budget) 0) :=
    (List.min?_eq_some_iff.mp hcap).2 _ hin
  have hceiling : (if prio then (1 : ℚ) else allowed) ≤ 1 := by
    split
    · exact le_refl 1
    · exact QuotaWindow.ramp_le_one (active_eq_some hactive).2
  refine le_trans (by exact_mod_cast hmin) (tokens_le hnonneg ?_)
  linarith

theorem gatingRows_capacity {quota : Quota} {windows : Windows} (resv : Reservations quota)
    {row : GatingRow} (h : row ∈ gatingRows quota windows resv.list) : 0 ≤ row.resv.capacity := by
  simp only [gatingRows, List.mem_flatMap, List.mem_map] at h
  obtain ⟨w, hw, _, _, rfl⟩ := h
  exact resv.capacity_nonneg _ (List.of_mem_zip hw).2

def NoHardStop (quota : Quota) (nowMs : Int) (rows : List GatingRow) : Prop :=
  ∀ row ∈ rows, ∀ used allowed, row.active quota nowMs = some (used, allowed) →
    quota.isHardStop row.window = false

/-- With no row over its ramp: no active hard stop. With a first such row: it is a hard stop,
or it has no whole token left, or no active row is a hard stop or has less left than it. -/
def RowsPermit (quota : Quota) (nowMs : Int) (rows : List GatingRow) : Prop :=
  match firstOver quota nowMs rows with
  | none => NoHardStop quota nowMs rows
  | some first =>
    quota.isHardStop first.row.window = true
      ∨ first.row.resv.tokens (first.row.headroom first.reported) ≤ 0
      ∨ NoHardStop quota nowMs rows ∧
        ∀ row ∈ rows, ∀ used allowed, row.active quota nowMs = some (used, allowed) →
          (first.row.resv.tokens (first.row.headroom first.reported) : ℚ)
            ≤ max 0 (1 - used - row.resv.budget) * row.resv.capacity

/-- A required window is missing, or the rows the reservations gate permit every grant. -/
def DecisionPermits (provider : LlmProvider)
    (reserve : Windows → Int → Except Text (Reservations provider.quota)) (windows : Windows)
    (anticipatedTokens : Int) (now : Int) : Prop :=
  (∃ quotaWindow ∈ provider.quota.windows, quotaWindow.isMissing windows now = true) ∨
  ∀ resv, reserve windows anticipatedTokens = .ok resv →
    RowsPermit provider.quota now (gatingRows provider.quota windows resv.list)

theorem grantSafe_headroom {quota : Quota} {windows : Windows} (resv : Reservations quota)
    (prio : Bool) {nowMs : Int} (capTokens : Option Int) (reason : Text)
    (hcap : ∀ cap, capTokens = some cap →
      computeHeadroom quota windows resv.list prio nowMs = some cap) :
    GrantSafe quota nowMs (gatingRows quota windows resv.list) (.granted capTokens reason) ↔
      NoHardStop quota nowMs (gatingRows quota windows resv.list) := by
  constructor
  · intro h row hrow used allowed hactive
    exact (h row hrow used allowed hactive).1
  · intro h row hrow used allowed hactive
    refine ⟨h row hrow used allowed hactive, fun cap hc => ?_⟩
    exact computeHeadroom_le (hcap cap hc) hrow (gatingRows_capacity resv hrow) hactive

theorem grantSafe_upgrade {quota : Quota} {windows : Windows} (resv : Reservations quota)
    {nowMs : Int} {reason : Text} :
    GrantSafe quota nowMs (gatingRows quota windows resv.list)
        (upgrade (computeHeadroom quota windows resv.list false nowMs)
          (computeHeadroom quota windows resv.list true nowMs) reason) ↔
      NoHardStop quota nowMs (gatingRows quota windows resv.list) := by
  have hnormal := grantSafe_headroom resv false
    (computeHeadroom quota windows resv.list false nowMs) reason (fun _ h => h)
  have hprio := grantSafe_headroom resv true
    (computeHeadroom quota windows resv.list true nowMs) "ok".toList (fun _ h => h)
  cases hp : computeHeadroom quota windows resv.list true nowMs with
  | none => simpa [upgrade, hp] using hnormal
  | some ph =>
    rw [hp] at hprio
    cases hn : computeHeadroom quota windows resv.list false nowMs with
    | none => simpa [upgrade] using hprio
    | some nc =>
      rw [hn] at hnormal
      simp only [upgrade]
      split
      · exact hprio
      · exact hnormal

theorem grantSafe_verdictOver {quota : Quota} {nowMs : Int} {rows : List GatingRow}
    (first : OverRow) :
    GrantSafe quota nowMs rows (verdictOver quota true first.row first.reported first.allowed) ↔
      (quota.isHardStop first.row.window = true
        ∨ first.row.resv.tokens (first.row.headroom first.reported) ≤ 0
        ∨ NoHardStop quota nowMs rows ∧
          ∀ row ∈ rows, ∀ used allowed, row.active quota nowMs = some (used, allowed) →
            (first.row.resv.tokens (first.row.headroom first.reported) : ℚ)
              ≤ max 0 (1 - used - row.resv.budget) * row.resv.capacity) := by
  simp only [verdictOver, Bool.true_and]
  cases hstop : quota.isHardStop first.row.window with
  | true => simp [GrantSafe]
  | false =>
    by_cases hpos : 0 < first.row.resv.tokens (first.row.headroom first.reported)
    · have hneg : ¬ first.row.resv.tokens (first.row.headroom first.reported) ≤ 0 := not_le.mpr hpos
      simp only [hpos, hneg, Bool.not_false, decide_true, Bool.and_self, if_true, GrantSafe,
        NoHardStop, Bool.false_eq_true, false_or, Option.some.injEq, forall_eq']
      constructor
      · intro h
        exact ⟨fun row hr used allowed ha => (h row hr used allowed ha).1,
          fun row hr used allowed ha => (h row hr used allowed ha).2⟩
      · intro h row hr used allowed ha
        exact ⟨h.1 row hr used allowed ha, h.2 row hr used allowed ha⟩
    · simp [hpos, not_lt.mp hpos, GrantSafe]

theorem verdictOver_normal (quota : Quota) (row : GatingRow) (reported allowed : ℚ) :
    ∃ retryAt, verdictOver quota false row reported allowed =
      .denied (denyReason row reported allowed) retryAt := by
  exact ⟨_, rfl⟩

theorem outlookSafe_iff {quota : Quota} {windows : Windows} (resv : Reservations quota)
    (nowMs : Int) :
    (GrantSafe quota nowMs (gatingRows quota windows resv.list)
        (decideInner quota windows resv.list false nowMs) ∧
      GrantSafe quota nowMs (gatingRows quota windows resv.list)
        (prioritizedOf quota windows resv.list nowMs
          (decideInner quota windows resv.list false nowMs))) ↔
      RowsPermit quota nowMs (gatingRows quota windows resv.list) := by
  by_cases hempty : windows.rows = []
  · have hrows : gatingRows quota windows resv.list = [] := gatingRows_eq_nil hempty
    simp [decideInner, prioritizedOf, hempty, hrows, GrantSafe, RowsPermit, firstOver, NoHardStop]
  · have hne : windows.rows.isEmpty = false := by
      cases hr : windows.rows with
      | nil => exact absurd hr hempty
      | cons => rfl
    simp only [RowsPermit, decideInner, hne, decideRows_eq]
    cases hfirst : firstOver quota nowMs (gatingRows quota windows resv.list) with
    | none =>
      simp only [Option.map_none, prioritizedOf, Bool.false_eq_true, if_false]
      rw [grantSafe_headroom resv false _ _ (fun _ h => h), grantSafe_upgrade resv, and_self]
    | some first =>
      obtain ⟨retryAt, hdenied⟩ := verdictOver_normal quota first.row first.reported first.allowed
      simp only [Option.map_some, Bool.false_eq_true, if_false, hdenied, prioritizedOf,
        decideInner, hne, decideRows_eq, hfirst, grantSafe_verdictOver]
      simp [GrantSafe]

theorem decideWithWindows_missing {provider : LlmProvider}
    (reserve : Windows → Int → Except Text (Reservations provider.quota)) {windows : Windows}
    (anticipatedTokens : Int) {now : Int}
    (h : ∃ quotaWindow ∈ provider.quota.windows, quotaWindow.isMissing windows now = true) :
    ∃ reason, decideWithWindows provider reserve windows anticipatedTokens now =
      .ok { normal := .denied reason none, prioritized := .denied reason none } := by
  cases hfind : provider.quota.windows.find? (fun w => w.isMissing windows now) with
  | none =>
    obtain ⟨quotaWindow, hmem, hmissing⟩ := h
    exact absurd hmissing (List.find?_eq_none.mp hfind quotaWindow hmem)
  | some missing =>
    exact ⟨missing.limitId ++ " unknown -- deny until fresh".toList, by
      simp only [decideWithWindows, hfind]⟩

theorem decideWithWindows_present {provider : LlmProvider}
    {reserve : Windows → Int → Except Text (Reservations provider.quota)} {windows : Windows}
    {anticipatedTokens now : Int} {resv : Reservations provider.quota}
    (h : ¬ ∃ quotaWindow ∈ provider.quota.windows, quotaWindow.isMissing windows now = true)
    (hresv : reserve windows anticipatedTokens = .ok resv) :
    decideWithWindows provider reserve windows anticipatedTokens now =
      .ok {
        normal := decideInner provider.quota windows resv.list false now
        prioritized := prioritizedOf provider.quota windows resv.list now
          (decideInner provider.quota windows resv.list false now) } := by
  have hfind : provider.quota.windows.find? (fun w => w.isMissing windows now) = none :=
    List.find?_eq_none.mpr fun w hw hm => h ⟨w, hw, hm⟩
  simp only [decideWithWindows, hfind, hresv, bind, Except.bind]

/-- Both verdicts are safe exactly when the rows permit it. -/
theorem decideWithWindows_safe_iff (provider : LlmProvider)
    (reserve : Windows → Int → Except Text (Reservations provider.quota)) (windows : Windows)
    (anticipatedTokens : Int) (now : Int) :
    DecisionSafe provider reserve windows anticipatedTokens now ↔
      DecisionPermits provider reserve windows anticipatedTokens now := by
  by_cases hmissing :
      ∃ quotaWindow ∈ provider.quota.windows, quotaWindow.isMissing windows now = true
  · obtain ⟨reason, hdecide⟩ :=
      decideWithWindows_missing reserve anticipatedTokens hmissing
    refine iff_of_true ?_ (.inl hmissing)
    intro resv outlook _ houtlook
    rw [hdecide] at houtlook
    cases houtlook
    exact ⟨trivial, trivial⟩
  · constructor
    · intro hsafe
      refine .inr fun resv hresv => (outlookSafe_iff resv now).mp ?_
      exact hsafe resv _ hresv (decideWithWindows_present hmissing hresv)
    · intro hpermits resv outlook hresv houtlook
      rw [decideWithWindows_present hmissing hresv] at houtlook
      cases houtlook
      exact (outlookSafe_iff resv now).mpr ((hpermits.resolve_left hmissing) resv hresv)

def idleReservations : Reservations Quota.anthropic where
  list := [
    { gate := 0, budget := 0, capacity := 67200000 },
    { gate := 0, budget := 0, capacity := fiveHFallbackTokens }]
  length_eq := rfl
  capacity_nonneg := by decide +kernel

/-- The weekly window half used right after its reset, the five-hour window exhausted. -/
def exhaustedSnapshot : Windows where
  rows := [
    ("anthropic:5h".toList,
      { limitId := "anthropic:5h".toList, usedFraction := some 1
        status := some "exhausted".toList, resetsAt := some (weekMs + fiveHMs)
        recordedAt := weekMs, ageS := 0 }),
    ("anthropic:7d".toList,
      { limitId := "anthropic:7d".toList, usedFraction := some (1 / 2)
        status := some "ok".toList, resetsAt := some (2 * weekMs)
        recordedAt := weekMs, ageS := 0 })]
  ascending := by decide

def exhaustedRow : GatingRow :=
  (gatingRows Quota.anthropic exhaustedSnapshot idleReservations.list).get ⟨1, by decide +kernel⟩

/-- Prioritized work is granted half the weekly window although the five-hour one is a hard stop. -/
theorem exhaustedSnapshot_unsafe :
    ¬ DecisionSafe .anthropic (fun _ _ => .ok idleReservations) exhaustedSnapshot 0 weekMs := by
  intro hsafe
  have hgrant := (hsafe idleReservations _ rfl rfl).2
  have hcap : (prioritizedOf Quota.anthropic exhaustedSnapshot idleReservations.list weekMs
      (decideInner Quota.anthropic exhaustedSnapshot idleReservations.list false weekMs)).capTokens?
        = some (some 33600000) := by decide +kernel
  have hactive : (exhaustedRow.active Quota.anthropic weekMs).isSome = true := by decide +kernel
  obtain ⟨usage, hactive⟩ := Option.isSome_iff_exists.mp hactive
  have hstop := hardStop_of_grantSafe hgrant hcap (List.get_mem _ _ : exhaustedRow ∈ _) hactive
  exact absurd hstop (by decide +kernel)

end Hunter.Scavenge
