import Hunter.Scavenge.Priority
set_option autoImplicit false

namespace Hunter.Scavenge

/-- Tokens spent since one window's probe, and the window's capacity. -/
structure Spent where
  tokens : Int
  capacity : ℚ

def Spent.reserve (anticipated : Int) (spent : Spent) : Reservation :=
  { gate := asFraction (spent.tokens + anticipated) spent.capacity
    budget := asFraction spent.tokens spent.capacity
    capacity := spent.capacity }

/-- The spend of the windows from `index` on, whatever job asks. -/
def spendFrom (quota : Quota) (windows : Windows) (ledger : SpendLedger) (running : Int)
    (estimates : List (Option ℚ)) : Nat → List QuotaWindow → Except Text (List Spent)
  | _, [] => .ok []
  | index, quotaWindow :: rest => do
    let finished ← ledger.finishedSince (probeAt windows quotaWindow)
    let tail ← spendFrom quota windows ledger running estimates (index + 1) rest
    return { tokens := running + finished, capacity := quota.capacity index estimates } :: tail

section
variable {quota : Quota} {windows : Windows} {ledger : SpendLedger} {running : Int}
  {estimates : List (Option ℚ)}

theorem reserveFrom_eq (anticipated : Int) (index : Nat) (rest : List QuotaWindow) :
    reserveFrom quota windows ledger (running + anticipated) anticipated estimates index rest =
      (spendFrom quota windows ledger running estimates index rest).map
        (List.map (Spent.reserve anticipated)) := by
  induction rest generalizing index with
  | nil => rfl
  | cons quotaWindow rest ih =>
    rw [reserveFrom, spendFrom]
    cases ledger.finishedSince (probeAt windows quotaWindow) with
    | error e => rfl
    | ok finished =>
      have hgate : running + anticipated + finished = running + finished + anticipated := by omega
      have hbudget : running + anticipated + finished - anticipated = running + finished := by
        omega
      rw [ih]
      cases spendFrom quota windows ledger running estimates (index + 1) rest with
      | error e => rfl
      | ok tail =>
        simp [bind, Except.bind, pure, Except.pure, Except.map, Spent.reserve, hgate]

theorem capacityWithin_pos (quota : Quota) {estimates : List (Option ℚ)}
    (hpos : ∀ e, some e ∈ estimates → 0 < e) :
    ∀ depth index : Nat, index < quota.windows.length → quota.windows.length < depth + index →
      0 < quota.capacityWithin estimates depth index := by
  intro depth
  induction depth with
  | zero => intro index hindex hdepth; omega
  | succ depth ih =>
    intro index hindex hdepth
    have hsound := quota.fallbacks_sound index hindex
    rw [Quota.capacityWithin]
    split
    · rename_i estimate he
      rw [Option.join_eq_some_iff] at he
      exact hpos estimate (List.mem_of_getElem? he)
    · rw [List.getElem?_eq_getElem hindex]
      cases hfallback : quota.windows[index].fallbackCapacity with
      | tokens amount =>
        simpa [hfallback, FallbackCapacity.sound] using hsound
      | scaled window ratio =>
        simp only [hfallback, FallbackCapacity.sound, Bool.and_eq_true, decide_eq_true_eq] at hsound
        obtain ⟨⟨hlt, hcount⟩, hratio⟩ := hsound
        have hcapacity := ih window hcount (by omega)
        simpa [hfallback] using div_pos hcapacity hratio

theorem spendFrom_capacity (hpos : ∀ e, some e ∈ estimates → 0 < e) {rest : List QuotaWindow}
    {index : Nat} {list : List Spent} (hrest : index + rest.length = quota.windows.length)
    (h : spendFrom quota windows ledger running estimates index rest = .ok list) :
    ∀ spent ∈ list, 0 < spent.capacity := by
  induction rest generalizing index list with
  | nil =>
    cases h
    simp
  | cons quotaWindow rest ih =>
    rw [spendFrom] at h
    cases hfinished : ledger.finishedSince (probeAt windows quotaWindow) with
    | error e => simp [hfinished, bind, Except.bind] at h
    | ok finished =>
      cases htail : spendFrom quota windows ledger running estimates (index + 1) rest with
      | error e => simp [hfinished, htail, bind, Except.bind] at h
      | ok tail =>
        simp only [hfinished, htail, bind, Except.bind, pure, Except.pure, Except.ok.injEq] at h
        subst h
        simp only [List.length_cons] at hrest
        intro spent hspent
        rcases List.mem_cons.1 hspent with rfl | hspent
        · exact capacityWithin_pos quota hpos _ index (by omega) (by omega)
        · exact ih (by omega) htail spent hspent

end

def spend (quota : Quota) (ledger : SpendLedger) (windows : Windows) :
    Except Text (List Spent) := do
  let running ← ledger.runningEstimate
  let estimates ← quota.windows.mapM fun quotaWindow =>
    ledger.estimateCapacity quotaWindow.limitId
  spendFrom quota windows ledger running (estimates.map (Option.map Subtype.val)) 0 quota.windows

theorem reservations_spend {quota : Quota} {ledger : SpendLedger} {windows : Windows}
    {anticipated : Int} {resv : Reservations quota}
    (h : reservations quota ledger windows anticipated = .ok resv) :
    ∃ spent, spend quota ledger windows = .ok spent ∧
      resv.list = spent.map (Spent.reserve anticipated) ∧ ∀ x ∈ spent, 0 < x.capacity := by
  unfold reservations at h
  unfold spend
  cases hrunning : ledger.runningEstimate with
  | error e => simp [hrunning, bind, Except.bind] at h
  | ok running =>
    cases hestimates : quota.windows.mapM fun quotaWindow =>
        ledger.estimateCapacity quotaWindow.limitId with
    | error e => simp [hrunning, hestimates, bind, Except.bind] at h
    | ok estimates =>
      simp only [hrunning, hestimates, bind, Except.bind] at h ⊢
      split at h
      · cases h
      · rename_i list hlist
        cases h
        rw [reserveFrom_eq] at hlist
        cases hspent : spendFrom quota windows ledger running
            (estimates.map (Option.map Subtype.val)) 0 quota.windows with
        | error e => simp [hspent, Except.map] at hlist
        | ok spent =>
          simp only [hspent, Except.map, Except.ok.injEq] at hlist
          refine ⟨spent, rfl, hlist.symm, ?_⟩
          refine spendFrom_capacity ?_ (by omega) hspent
          intro e he
          obtain ⟨estimate, _, hmap⟩ := List.mem_map.1 he
          obtain ⟨capacity, _, rfl⟩ := Option.map_eq_some_iff.1 hmap
          exact capacity.property

/-- As `read_windows` returns a snapshot: no row's cycle is over. -/
def Windows.Current (windows : Windows) (nowMs : Int) : Prop :=
  ∀ row ∈ windows.rows, ∀ resetsAt, row.2.resetsAt = some resetsAt →
    ¬ (0 < resetsAt ∧ resetsAt ≤ nowMs)

section
variable {quota : Quota} {windows : Windows} {nowMs : Int}

theorem mem_gatingRows {resv : List Reservation} {row : GatingRow}
    (h : row ∈ gatingRows quota windows resv) :
    row.resv ∈ resv ∧ (row.lid, row.window) ∈ windows.rows := by
  simp only [gatingRows, List.mem_flatMap, List.mem_map, List.mem_filter] at h
  obtain ⟨w, hw, x, ⟨hx, _⟩, rfl⟩ := h
  exact ⟨(List.of_mem_zip hw).2, hx⟩

theorem active_of_cap {resv : List Reservation} {row : GatingRow} {cap : Int}
    (hcurrent : windows.Current nowMs) (hrow : row ∈ gatingRows quota windows resv)
    (hcap : row.cap quota false nowMs = some cap) :
    ∃ used allowed, row.active quota nowMs = some (used, allowed) ∧
      cap = row.resv.tokens (max (allowed - used - row.resv.budget) 0) := by
  have hexpired : row.expired nowMs = false := by
    cases hreset : row.window.resetsAt with
    | none => simp [GatingRow.expired, hreset]
    | some resetsAt =>
      have := hcurrent _ (mem_gatingRows hrow).2 resetsAt hreset
      simp only [GatingRow.expired, hreset, Option.any_some, Bool.and_eq_false_iff,
        decide_eq_false_iff_not]
      omega
  simp only [GatingRow.cap, Option.bind_eq_bind, Option.bind_eq_some_iff] at hcap
  obtain ⟨used, hused, allowed, hallowed, hcap⟩ := hcap
  refine ⟨used, allowed, ?_, ?_⟩
  · simp [GatingRow.active, hexpired, hused, hallowed]
  · simpa using hcap.symm

theorem under_of_firstOver_none {rows : List GatingRow} {row : GatingRow} {used allowed : ℚ}
    (hnone : firstOver quota nowMs rows = none) (hrow : row ∈ rows)
    (hactive : row.active quota nowMs = some (used, allowed)) :
    used + row.resv.gate < allowed := by
  induction rows with
  | nil => cases hrow
  | cons head rest ih =>
    simp only [firstOver] at hnone
    rcases List.mem_cons.1 hrow with rfl | hrest
    · rw [hactive] at hnone
      dsimp only at hnone
      split at hnone
      · assumption
      · cases hnone
    · split at hnone
      · exact ih hnone hrest
      · split at hnone
        · exact ih hnone hrest
        · cases hnone

theorem firstOver_none_of_granted {resv : List Reservation} {cap : Option Int} {reason : Text}
    (h : decideInner quota windows resv false nowMs = .granted cap reason) :
    firstOver quota nowMs (gatingRows quota windows resv) = none := by
  unfold decideInner at h
  split at h
  · cases h
  · rw [decideRows_eq] at h
    cases hfirst : firstOver quota nowMs (gatingRows quota windows resv) with
    | none => rfl
    | some first =>
      obtain ⟨retryAt, hdenied⟩ :=
        verdictOver_normal quota first.row first.reported first.allowed
      simp only [hfirst, Option.map_some, hdenied] at h
      cases h

/-- `Reservation::tokens` keeps every whole number of tokens that fits an `i64`. -/
theorem le_tokens {resv : Reservation} {frac : ℚ} {n : Int} (hn : n < 2 ^ 63)
    (h : (n : ℚ) ≤ frac * resv.capacity) (hnonneg : 0 ≤ frac * resv.capacity) :
    n ≤ resv.tokens frac := by
  have hfloor : n ≤ ⌊frac * resv.capacity⌋ := Int.le_floor.2 h
  simp only [Reservation.tokens, castI64, if_pos hnonneg]
  omega

theorem anticipated_le_row {spent : Spent} {anticipated : Int} {used allowed : ℚ}
    (hcapacity : 0 < spent.capacity) (hanticipated : anticipated < 2 ^ 63)
    (hunder : used + (spent.reserve anticipated).gate < allowed) :
    anticipated ≤ (spent.reserve anticipated).tokens
      (max (allowed - used - (spent.reserve anticipated).budget) 0) := by
  simp only [Spent.reserve, asFraction, if_pos hcapacity] at hunder ⊢
  have hsplit : ((spent.tokens + anticipated : Int) : ℚ) / spent.capacity =
      spent.tokens / spent.capacity + anticipated / spent.capacity := by
    push_cast
    exact add_div _ _ _
  rw [hsplit] at hunder
  have hroom : (anticipated : ℚ) / spent.capacity ≤
      max (allowed - used - spent.tokens / spent.capacity) 0 :=
    le_max_of_le_left (by linarith)
  refine le_tokens hanticipated ?_ (mul_nonneg (le_max_right _ _) (le_of_lt hcapacity))
  rwa [div_le_iff₀ hcapacity] at hroom

theorem computeHeadroom_reserve (spent : List Spent) (prio : Bool) (a b : Int) :
    computeHeadroom quota windows (spent.map (Spent.reserve a)) prio nowMs =
      computeHeadroom quota windows (spent.map (Spent.reserve b)) prio nowMs := by
  have hrows : ∀ c : Int,
      (gatingRows quota windows (spent.map (Spent.reserve c))).filterMap
          (GatingRow.cap quota prio nowMs) =
        (quota.windows.zip spent).flatMap fun w =>
          (windows.rows.filter fun row => w.1.gates row.1).filterMap fun row =>
            GatingRow.cap quota prio nowMs
              { quotaWindow := w.1, resv := w.2.reserve 0, lid := row.1, window := row.2 } := by
    intro c
    simp only [gatingRows, List.zip_map_right, List.flatMap_map, List.filterMap_flatMap,
      List.filterMap_map]
    rfl
  rw [computeHeadroom, computeHeadroom, hrows a, hrows b]

end

theorem granted_normal {provider : LlmProvider} {ledger : SpendLedger} {windows : Windows}
    {anticipated now : Int} {outlook : Outlook} {cap : Option Int} {reason : Text}
    (houtlook : decideWithWindows provider (reservations provider.quota ledger) windows anticipated
      now = .ok outlook)
    (hgranted : outlook.normal = .granted cap reason) :
    ∃ spent, spend provider.quota ledger windows = .ok spent ∧ (∀ x ∈ spent, 0 < x.capacity) ∧
      decideInner provider.quota windows (spent.map (Spent.reserve anticipated)) false now =
        .granted cap reason := by
  by_cases hmissing :
      ∃ quotaWindow ∈ provider.quota.windows, quotaWindow.isMissing windows now = true
  · obtain ⟨why, hdecide⟩ :=
      decideWithWindows_missing (reservations provider.quota ledger) anticipated hmissing
    rw [hdecide] at houtlook
    cases houtlook
    cases hgranted
  · cases hresv : reservations provider.quota ledger windows anticipated with
    | error e =>
      have hfind : provider.quota.windows.find? (fun w => w.isMissing windows now) = none :=
        List.find?_eq_none.2 fun w hw hm => hmissing ⟨w, hw, hm⟩
      simp [decideWithWindows, hfind, hresv, bind, Except.bind] at houtlook
    | ok resv =>
      obtain ⟨spent, hspent, hlist, hpos⟩ := reservations_spend hresv
      rw [decideWithWindows_present hmissing hresv] at houtlook
      cases houtlook
      exact ⟨spent, hspent, hpos, hlist ▸ hgranted⟩

/-- A normal grant's cap holds the anticipated job, and does not depend on it. -/
theorem normalCap_honours_reservations (provider : LlmProvider) (ledger : SpendLedger)
    (windows : Windows) (now : Int) (hcurrent : windows.Current now) :
    (∀ (anticipated : Int64) (outlook : Outlook) (cap : Int) (reason : Text),
      decideWithWindows provider (reservations provider.quota ledger) windows anticipated.toInt
        now = .ok outlook →
      outlook.normal = .granted (some cap) reason → anticipated.toInt ≤ cap) ∧
    ∀ (a b : Int64) (outlookA outlookB : Outlook) (capA capB : Option Int) (whyA whyB : Text),
      decideWithWindows provider (reservations provider.quota ledger) windows a.toInt
        now = .ok outlookA →
      decideWithWindows provider (reservations provider.quota ledger) windows b.toInt
        now = .ok outlookB →
      outlookA.normal = .granted capA whyA → outlookB.normal = .granted capB whyB →
      capA = capB := by
  constructor
  · intro anticipated outlook cap reason houtlook hgranted
    obtain ⟨spent, _, hpos, hinner⟩ := granted_normal houtlook hgranted
    have hnone := firstOver_none_of_granted hinner
    have hcap := (granted_decideInner hinner).symm
    obtain ⟨row, hrow, hrowCap⟩ := List.mem_filterMap.1 (List.min?_mem hcap)
    obtain ⟨used, allowed, hactive, rfl⟩ := active_of_cap hcurrent hrow hrowCap
    have hunder := under_of_firstOver_none hnone hrow hactive
    obtain ⟨x, hx, hresv⟩ := List.mem_map.1 (mem_gatingRows hrow).1
    rw [← hresv] at hunder ⊢
    exact anticipated_le_row (hpos x hx) anticipated.toInt_lt hunder
  · intro a b outlookA outlookB capA capB whyA whyB hA hB hgrantedA hgrantedB
    obtain ⟨spentA, hspentA, _, hinnerA⟩ := granted_normal hA hgrantedA
    obtain ⟨spentB, hspentB, _, hinnerB⟩ := granted_normal hB hgrantedB
    obtain rfl : spentA = spentB := by
      rw [hspentA] at hspentB
      exact Except.ok.inj hspentB
    rw [granted_decideInner hinnerA, granted_decideInner hinnerB]
    exact computeHeadroom_reserve spentA false a.toInt b.toInt

def quietLedger : SpendLedger where
  runningEstimate := .ok 0
  finishedSince _ := .ok 0
  estimateCapacity _ := .ok none

def halfSpent : Windows where
  rows := [
    ("anthropic:7d".toList,
      { limitId := "anthropic:7d".toList, usedFraction := some (1 / 2)
        status := some "ok".toList, resetsAt := some (weekMs + weekMs / 4)
        recordedAt := weekMs, ageS := 0 })]
  ascending := by decide

theorem halfSpent_current : halfSpent.Current weekMs := by
  intro row hrow resetsAt hreset
  simp only [halfSpent, List.mem_singleton] at hrow
  subst hrow
  cases hreset
  decide

theorem normalCap_honours_reservations_halfSpent :
    ∃ (outlook : Outlook) (cap : Int) (reason : Text),
      decideWithWindows .anthropic (reservations _ quietLedger) halfSpent (1000 : Int64).toInt
        weekMs = .ok outlook ∧
      outlook.normal = .granted (some cap) reason ∧ (1000 : Int64).toInt ≤ cap := by
  have hcap : ((decideWithWindows .anthropic (reservations _ quietLedger) halfSpent
      (1000 : Int64).toInt weekMs).toOption.bind fun outlook => outlook.normal.capTokens?)
        = some (some 16800000) := by decide +kernel
  obtain ⟨outlook, houtlook, hcap⟩ := Option.bind_eq_some_iff.1 hcap
  have hdecide : decideWithWindows .anthropic (reservations _ quietLedger) halfSpent
      (1000 : Int64).toInt weekMs = .ok outlook := by
    cases hresult : decideWithWindows .anthropic (reservations _ quietLedger) halfSpent
        (1000 : Int64).toInt weekMs with
    | error e =>
      rw [hresult] at houtlook
      cases houtlook
    | ok result =>
      rw [hresult] at houtlook
      cases houtlook
      rfl
  cases hnormal : outlook.normal with
  | denied why retryAt =>
    rw [hnormal] at hcap
    cases hcap
  | granted cap reason =>
    rw [hnormal] at hcap
    cases hcap
    exact ⟨outlook, _, reason, hdecide, hnormal,
      (normalCap_honours_reservations .anthropic quietLedger halfSpent weekMs
        halfSpent_current).1 1000 outlook _ reason hdecide hnormal⟩

end Hunter.Scavenge
