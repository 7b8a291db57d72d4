import Hunter.Scavenge.GrantSafety
import Mathlib
set_option autoImplicit false

namespace Hunter.Scavenge

/-- The tokens a verdict lets a job spend: none, so many, or any number. -/
def Verdict.allowance : Verdict → WithBot (WithTop Int)
  | .denied _ _ => ⊥
  | .granted none _ => ((⊤ : WithTop Int) : WithBot (WithTop Int))
  | .granted (some cap) _ => ((cap : WithTop Int) : WithBot (WithTop Int))

/-- A normal grant comes with a prioritized one of at least its cap; no cap is the largest. -/
def Outlook.Dominates (outlook : Outlook) : Prop :=
  ∀ cap, outlook.normal.capTokens? = some cap →
    ∃ cap', outlook.prioritized.capTokens? = some cap' ∧
      ∀ bound', cap' = some bound' → ∃ bound, cap = some bound ∧ bound ≤ bound'

theorem Outlook.dominates_of_le {outlook : Outlook}
    (h : outlook.normal.allowance ≤ outlook.prioritized.allowance) : outlook.Dominates := by
  intro cap hcap
  obtain ⟨normal, prioritized⟩ := outlook
  cases normal with
  | denied => cases hcap
  | granted normalCap _ =>
    cases hcap
    cases prioritized with
    | denied =>
      cases cap <;> simp [Verdict.allowance] at h
    | granted prioCap _ =>
      refine ⟨prioCap, rfl, fun bound' hbound => ?_⟩
      subst hbound
      cases cap with
      | none => simp [Verdict.allowance] at h
      | some bound => exact ⟨bound, rfl, by simpa [Verdict.allowance] using h⟩

section
variable {quota : Quota} {windows : Windows} {resv : List Reservation} {nowMs : Int}

theorem GatingRow.isSome_cap (row : GatingRow) (prio : Bool) :
    (row.cap quota prio nowMs).isSome = (row.cap quota false nowMs).isSome := by
  simp only [GatingRow.cap]
  cases quota.effectiveUsed row.window with
  | none => rfl
  | some used =>
    cases row.quotaWindow.ramp row.window.resetsAt nowMs with
    | none => rfl
    | some allowed => rfl

theorem filterMap_cap_nil (rows : List GatingRow) (prio : Bool) :
    rows.filterMap (GatingRow.cap quota prio nowMs) = [] ↔
      rows.filterMap (GatingRow.cap quota false nowMs) = [] := by
  simp only [List.filterMap_eq_nil_iff, ← Option.isNone_iff_eq_none, ← Option.not_isSome,
    GatingRow.isSome_cap _ prio]

theorem computeHeadroom_none (prio : Bool) :
    computeHeadroom quota windows resv prio nowMs = none ↔
      computeHeadroom quota windows resv false nowMs = none := by
  simp only [computeHeadroom, List.min?_eq_none_iff]
  exact filterMap_cap_nil _ prio

/-- An upgrade never lowers the cap, where both headrooms are bounded by the same rows. -/
theorem le_upgrade {normalCap prioHeadroom : Option Int} {reason : Text}
    (h : prioHeadroom = none ↔ normalCap = none) :
    (Verdict.granted normalCap reason).allowance ≤
      (upgrade normalCap prioHeadroom reason).allowance := by
  cases prioHeadroom with
  | none =>
    rw [h.1 rfl]
    exact le_refl _
  | some ph =>
    cases normalCap with
    | none => cases h.2 rfl
    | some nc =>
      simp only [upgrade]
      split
      · rename_i hlt
        simpa [Verdict.allowance] using le_of_lt hlt
      · exact le_refl _

theorem granted_decideInner {cap : Option Int} {reason : Text}
    (h : decideInner quota windows resv false nowMs = .granted cap reason) :
    cap = computeHeadroom quota windows resv false nowMs := by
  unfold decideInner at h
  split at h
  · cases h
  · rw [decideRows_eq] at h
    cases hfirst : firstOver quota nowMs (gatingRows quota windows resv) with
    | none =>
      simp only [hfirst, Option.map_none] at h
      cases h
      rfl
    | some first =>
      obtain ⟨retryAt, hdenied⟩ :=
        verdictOver_normal quota first.row first.reported first.allowed
      simp only [hfirst, Option.map_some, hdenied] at h
      cases h

theorem le_prioritizedOf :
    (decideInner quota windows resv false nowMs).allowance ≤
      (prioritizedOf quota windows resv nowMs
        (decideInner quota windows resv false nowMs)).allowance := by
  cases hnormal : decideInner quota windows resv false nowMs with
  | denied => exact bot_le
  | granted cap reason =>
    refine le_upgrade ?_
    rw [granted_decideInner hnormal]
    exact computeHeadroom_none true

end

abbrev Decide := Int → Except Text Outlook

/-- `OverdriveBackend`: where the switch is on, every job decides with priority. -/
def overdrive (enabled : Bool) (inner : Decide) : Decide := fun anticipatedTokens => do
  let outlook ← inner anticipatedTokens
  if enabled then return { normal := outlook.prioritized, prioritized := outlook.prioritized }
  else return outlook

def DecidesInOrder (backend : Decide) : Prop :=
  ∀ anticipatedTokens outlook, backend anticipatedTokens = .ok outlook → outlook.Dominates

theorem decidesInOrder_overdrive {enabled : Bool} {inner : Decide} (h : DecidesInOrder inner) :
    DecidesInOrder (overdrive enabled inner) := by
  intro anticipatedTokens outlook houtlook
  unfold overdrive at houtlook
  cases hinner : inner anticipatedTokens with
  | error e =>
    rw [hinner] at houtlook
    cases houtlook
  | ok decided =>
    rw [hinner] at houtlook
    cases enabled with
    | true =>
      cases houtlook
      exact Outlook.dominates_of_le (le_refl _)
    | false =>
      cases houtlook
      exact h anticipatedTokens outlook hinner

theorem decidesInOrder_withWindows (provider : LlmProvider) (ledger : SpendLedger)
    (windows : Windows) (now : Int) :
    DecidesInOrder fun anticipatedTokens =>
      decideWithWindows provider (reservations provider.quota ledger) windows anticipatedTokens
        now := by
  intro anticipatedTokens outlook houtlook
  change decideWithWindows provider (reservations provider.quota ledger) windows anticipatedTokens
    now = .ok outlook at houtlook
  by_cases hmissing :
      ∃ quotaWindow ∈ provider.quota.windows, quotaWindow.isMissing windows now = true
  · obtain ⟨reason, hdecide⟩ := decideWithWindows_missing
      (reservations provider.quota ledger) anticipatedTokens hmissing
    rw [hdecide] at houtlook
    cases houtlook
    exact Outlook.dominates_of_le (le_refl _)
  · cases hresv : reservations provider.quota ledger windows anticipatedTokens with
    | error e =>
      have hfind : provider.quota.windows.find? (fun w => w.isMissing windows now) = none :=
        List.find?_eq_none.mpr fun w hw hm => hmissing ⟨w, hw, hm⟩
      simp [decideWithWindows, hfind, hresv, bind, Except.bind] at houtlook
    | ok resv =>
      rw [decideWithWindows_present hmissing hresv] at houtlook
      cases houtlook
      exact Outlook.dominates_of_le le_prioritizedOf

/-- Priority dominates in every decision, and through every overdrive switch. -/
theorem priority_dominates (provider : LlmProvider) (ledger : SpendLedger) (windows : Windows)
    (now : Int) :
    DecidesInOrder (fun anticipatedTokens => decideWithWindows provider
      (reservations provider.quota ledger) windows anticipatedTokens now) ∧
    ∀ (enabled : Bool) (inner : Decide), DecidesInOrder inner →
      DecidesInOrder (overdrive enabled inner) :=
  ⟨decidesInOrder_withWindows provider ledger windows now,
    fun _ _ h => decidesInOrder_overdrive h⟩

end Hunter.Scavenge
