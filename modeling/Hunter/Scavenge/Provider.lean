import Hunter.Scavenge.Capacity
set_option autoImplicit false

namespace Hunter.Scavenge

def daysFromCivil (year month day : Int) : Int :=
  let y := if month ≤ 2 then year - 1 else year
  let era := y / 400
  let yoe := y - era * 400
  let doy := (153 * (if 2 < month then month - 3 else month + 9) + 2) / 5 + day - 1
  let doe := yoe * 365 + yoe / 4 - yoe / 100 + doy
  era * 146097 + doe - 719468

def monthFromDays (days : Int) : Int × Int :=
  let z := days + 719468
  let era := z / 146097
  let doe := z - era * 146097
  let yoe := (doe - doe / 1460 + doe / 36524 - doe / 146096) / 365
  let doy := doe - (365 * yoe + yoe / 4 - yoe / 100)
  let mp := (5 * doy + 2) / 153
  let month := if mp < 10 then mp + 3 else mp - 9
  (yoe + era * 400 + (if month ≤ 2 then 1 else 0), month)

def minYear : Int := -262143
def maxYear : Int := 262142

/-- `DateTime::from_timestamp_millis`, down to the month; `none` outside the date range. -/
def monthFromTimestampMillis (ms : Int) : Option (Int × Int) :=
  let m := monthFromDays (ms / 86400000)
  if minYear ≤ m.1 ∧ m.1 ≤ maxYear then some m else none

def checkedSubMonth (m : Int × Int) : Option (Int × Int) :=
  let previous := if m.2 = 1 then (m.1 - 1, 12) else (m.1, m.2 - 1)
  if minYear ≤ previous.1 then some previous else none

inductive Period
  | fixed (periodMs : Int)
  | calendarMonth
  deriving DecidableEq

def Period.lengthMs : Period → Option Int → Option Int
  | .fixed periodMs, _ => some periodMs
  | .calendarMonth, resetsAt => do
    let reset ← resetsAt
    let month ← monthFromTimestampMillis reset
    let start ← checkedSubMonth month
    some (reset - daysFromCivil start.1 start.2 1 * 86400000)

inductive Pacing
  | linear
  | afterHeadroom
  deriving DecidableEq

def Pacing.fits : Pacing → Period → Bool
  | .linear, _ => true
  | .afterHeadroom, .fixed periodMs => headroomMs < periodMs
  | .afterHeadroom, .calendarMonth => false

inductive FallbackCapacity
  | tokens (amount : ℚ)
  | scaled (window : Nat) (ratio : ℚ)

structure QuotaWindow where
  limitId : Text
  period : Period
  pacing : Pacing
  extraPrefix : Option Text
  required : Bool
  fallbackCapacity : FallbackCapacity
  pacing_fits : pacing.fits period = true

def QuotaWindow.gates (quotaWindow : QuotaWindow) (limitId : Text) : Bool :=
  limitId = quotaWindow.limitId
    || quotaWindow.extraPrefix.any (fun extra => extra.isPrefixOf limitId)

def QuotaWindow.ramp (quotaWindow : QuotaWindow) (resetsAt : Option Int) (nowMs : Int) :
    Option ℚ := do
  let periodMs ← quotaWindow.period.lengthMs resetsAt
  match quotaWindow.pacing with
  | .linear => some (rampLinear resetsAt periodMs nowMs)
  | .afterHeadroom => rampAfterHeadroom resetsAt periodMs nowMs

def QuotaWindow.retryAt (quotaWindow : QuotaWindow) (resetsAt : Option Int)
    (effectiveUsed : ℚ) : Option ℚ := do
  let periodMs ← quotaWindow.period.lengthMs resetsAt
  match quotaWindow.pacing with
  | .linear => retryAtLinear resetsAt periodMs effectiveUsed
  | .afterHeadroom => retryAtAfterHeadroom resetsAt periodMs effectiveUsed

def QuotaWindow.isMissing (quotaWindow : QuotaWindow) (windows : Windows) (nowMs : Int) : Bool :=
  quotaWindow.required
    && !(windows.get quotaWindow.limitId).any (fun row =>
      row.usedFraction.isSome && row.resetsAt.any (fun reset => nowMs < reset))

theorem QuotaWindow.ramp_le_one {quotaWindow : QuotaWindow} {resetsAt : Option Int}
    {nowMs : Int} {allowed : ℚ} (h : quotaWindow.ramp resetsAt nowMs = some allowed) :
    allowed ≤ 1 := by
  have hfits := quotaWindow.pacing_fits
  simp only [ramp, Option.bind_eq_bind, Option.bind_eq_some_iff] at h
  obtain ⟨periodMs, hperiod, h⟩ := h
  cases hpacing : quotaWindow.pacing with
  | linear =>
    simp only [hpacing, Option.some.injEq] at h
    rw [← h]; exact rampLinear_le_one resetsAt periodMs nowMs
  | afterHeadroom =>
    simp only [hpacing] at h
    cases hp : quotaWindow.period with
    | calendarMonth => simp [hpacing, hp, Pacing.fits] at hfits
    | fixed p =>
      have hlen : p = periodMs := by simpa [hp, Period.lengthMs] using hperiod
      subst hlen
      exact rampAfterHeadroom_le_one (by simpa [hpacing, hp, Pacing.fits] using hfits) h

/-- A fallback is a positive constant, or a later window's capacity over a positive ratio. -/
def FallbackCapacity.sound (count index : Nat) : FallbackCapacity → Bool
  | .tokens amount => 0 < amount
  | .scaled window ratio => index < window && window < count && 0 < ratio

structure Quota where
  windows : List QuotaWindow
  exhaustedIsHardStop : Bool
  readsOtherLimits : Bool
  fallbacks_sound : ∀ (index : Nat) (h : index < windows.length),
    windows[index].fallbackCapacity.sound windows.length index = true

def Quota.isHardStop (quota : Quota) (window : WindowState) : Bool :=
  quota.exhaustedIsHardStop && window.status = some "exhausted".toList

def Quota.effectiveUsed (quota : Quota) (window : WindowState) : Option ℚ :=
  if quota.isHardStop window then some 1 else window.usedFraction

/-- `Quota::capacity` with a bound on the chain of scaled fallbacks. -/
def Quota.capacityWithin (quota : Quota) (estimates : List (Option ℚ)) : Nat → Nat → ℚ
  | 0, _ => 0
  | depth + 1, index =>
    match estimates[index]?.join with
    | some estimate => estimate
    | none =>
      match quota.windows[index]?.map QuotaWindow.fallbackCapacity with
      | some (.tokens amount) => amount
      | some (.scaled window ratio) => quota.capacityWithin estimates depth window / ratio
      | none => 0

def Quota.capacity (quota : Quota) (index : Nat) (estimates : List (Option ℚ)) : ℚ :=
  quota.capacityWithin estimates (quota.windows.length + 1) index

theorem Quota.scaled_sound {quota : Quota} {index window : Nat} {ratio : ℚ}
    (h : quota.windows[index]?.map QuotaWindow.fallbackCapacity = some (.scaled window ratio)) :
    index < window ∧ window < quota.windows.length ∧ 0 < ratio := by
  simp only [Option.map_eq_some_iff, List.getElem?_eq_some_iff] at h
  obtain ⟨quotaWindow, ⟨hlt, rfl⟩, hw⟩ := h
  have hs := quota.fallbacks_sound index hlt
  simpa [hw, FallbackCapacity.sound, and_assoc] using hs

/-- Any two bounds past the end of the window list give the same capacity. -/
theorem Quota.capacityWithin_stable (quota : Quota) (estimates : List (Option ℚ)) :
    ∀ (d₁ d₂ index : Nat), quota.windows.length < d₁ + index → quota.windows.length < d₂ + index →
      index ≤ quota.windows.length →
      quota.capacityWithin estimates d₁ index = quota.capacityWithin estimates d₂ index := by
  intro d₁
  induction d₁ with
  | zero => intro d₂ index h₁ _ hi; omega
  | succ d₁ ih =>
    intro d₂ index h₁ h₂ hi
    cases d₂ with
    | zero => omega
    | succ d₂ =>
      simp only [capacityWithin]
      split
      · rfl
      · split
        · rfl
        · rename_i window ratio hw
          obtain ⟨hlt, hcount, _⟩ := scaled_sound hw
          rw [ih d₂ window (by omega) (by omega) (by omega)]
        · rfl

/-- The source's recursion: an estimate, else the window's own fallback. -/
theorem Quota.capacity_eq (quota : Quota) (index : Nat) (estimates : List (Option ℚ)) :
    quota.capacity index estimates =
      match estimates[index]?.join with
      | some estimate => estimate
      | none =>
        match quota.windows[index]?.map QuotaWindow.fallbackCapacity with
        | some (.tokens amount) => amount
        | some (.scaled window ratio) => quota.capacity window estimates / ratio
        | none => 0 := by
  simp only [capacity]
  rw [capacityWithin]
  split
  · rfl
  · split
    · rfl
    · rename_i window ratio hw
      obtain ⟨hlt, hcount, _⟩ := scaled_sound hw
      rw [capacityWithin_stable quota estimates _ (quota.windows.length + 1) window
        (by omega) (by omega) (by omega)]
    · rfl

theorem Quota.capacityWithin_nonneg (quota : Quota) {estimates : List (Option ℚ)}
    (hpos : ∀ e, some e ∈ estimates → 0 < e) (depth index : Nat) :
    0 ≤ quota.capacityWithin estimates depth index := by
  induction depth generalizing index with
  | zero => exact le_refl 0
  | succ depth ih =>
    rw [capacityWithin]
    split
    · rename_i estimate he
      rw [Option.join_eq_some_iff, List.getElem?_eq_some_iff] at he
      obtain ⟨hlt, he⟩ := he
      exact le_of_lt (hpos estimate (he ▸ List.getElem_mem hlt))
    · split
      · rename_i amount hw
        simp only [Option.map_eq_some_iff, List.getElem?_eq_some_iff] at hw
        obtain ⟨quotaWindow, ⟨hlt, rfl⟩, hw⟩ := hw
        have hs := quota.fallbacks_sound index hlt
        have : 0 < amount := by simpa [hw, FallbackCapacity.sound] using hs
        exact le_of_lt this
      · rename_i window ratio hw
        obtain ⟨_, _, hr⟩ := scaled_sound hw
        exact div_nonneg (ih window) (le_of_lt hr)
      · exact le_refl 0

inductive LlmProvider
  | anthropic
  | openAiCodex
  | gitHubCopilot
  deriving DecidableEq

def fiveHFallbackTokens : ℚ := 2000000
def ratio5h7d : ℚ := fiveHMs / weekMs
def longWindowFallbackTokens : ℚ := fiveHFallbackTokens / ratio5h7d

def Quota.anthropic : Quota where
  windows := [
    { limitId := "anthropic:7d".toList
      period := .fixed weekMs
      pacing := .linear
      extraPrefix := some "anthropic:7d:".toList
      required := false
      fallbackCapacity := .scaled 1 ratio5h7d
      pacing_fits := rfl },
    { limitId := "anthropic:5h".toList
      period := .fixed fiveHMs
      pacing := .afterHeadroom
      extraPrefix := none
      required := false
      fallbackCapacity := .tokens fiveHFallbackTokens
      pacing_fits := by decide }]
  exhaustedIsHardStop := true
  readsOtherLimits := true
  fallbacks_sound := by decide +kernel

def Quota.openAiCodex : Quota where
  windows := [
    { limitId := "openai-codex:secondary".toList
      period := .fixed weekMs
      pacing := .linear
      extraPrefix := none
      required := false
      fallbackCapacity := .scaled 1 ratio5h7d
      pacing_fits := rfl },
    { limitId := "openai-codex:primary".toList
      period := .fixed fiveHMs
      pacing := .afterHeadroom
      extraPrefix := none
      required := false
      fallbackCapacity := .tokens fiveHFallbackTokens
      pacing_fits := by decide }]
  exhaustedIsHardStop := false
  readsOtherLimits := true
  fallbacks_sound := by decide +kernel

def Quota.gitHubCopilot : Quota where
  windows := [
    { limitId := "copilot:premium".toList
      period := .calendarMonth
      pacing := .linear
      extraPrefix := none
      required := true
      fallbackCapacity := .tokens longWindowFallbackTokens
      pacing_fits := rfl }]
  exhaustedIsHardStop := true
  readsOtherLimits := false
  fallbacks_sound := by decide +kernel

def LlmProvider.quota : LlmProvider → Quota
  | .anthropic => Quota.anthropic
  | .openAiCodex => Quota.openAiCodex
  | .gitHubCopilot => Quota.gitHubCopilot

end Hunter.Scavenge
