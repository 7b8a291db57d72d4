import Hunter.Scavenge.Provider
set_option autoImplicit false

namespace Hunter.Scavenge

inductive Verdict
  | granted (capTokens : Option Int) (reason : Text)
  | denied (reason : Text) (retryAt : Option ℚ)

structure Outlook where
  normal : Verdict
  prioritized : Verdict

def asFraction (tokens : Int) (capacity : ℚ) : ℚ :=
  if 0 < capacity then tokens / capacity else 0

/-- In-flight spend of one window as fractions of its capacity: `gate` counts the
anticipated job in, `budget` leaves it out. -/
structure Reservation where
  gate : ℚ
  budget : ℚ
  capacity : ℚ

def Reservation.tokens (resv : Reservation) (frac : ℚ) : Int :=
  castI64 (frac * resv.capacity)

/-- One reservation per quota window, in window order. -/
structure Reservations (quota : Quota) where
  list : List Reservation
  length_eq : list.length = quota.windows.length
  capacity_nonneg : ∀ resv ∈ list, 0 ≤ resv.capacity

/-- What the decision reads of the spend ledger; a known capacity is strictly positive. -/
structure SpendLedger where
  runningEstimate : Except Text Int
  finishedSince : Int → Except Text Int
  estimateCapacity : Text → Except Text (Option { capacity : ℚ // 0 < capacity })

def fallbackProbe (windows : Windows) : Int :=
  ((windows.rows.map fun row => row.2.recordedAt).min?).getD 0

def probeAt (windows : Windows) (quotaWindow : QuotaWindow) : Int :=
  ((windows.get quotaWindow.limitId).map WindowState.recordedAt).getD (fallbackProbe windows)

/-- The reservations of the windows from `index` on. -/
def reserveFrom (quota : Quota) (windows : Windows) (ledger : SpendLedger) (base anticipated : Int)
    (estimates : List (Option ℚ)) : Nat → List QuotaWindow → Except Text (List Reservation)
  | _, [] => .ok []
  | index, quotaWindow :: rest => do
    let finished ← ledger.finishedSince (probeAt windows quotaWindow)
    let unaccounted := base + finished
    let capacity := quota.capacity index estimates
    let resv : Reservation :=
      { gate := asFraction unaccounted capacity
        budget := asFraction (unaccounted - anticipated) capacity
        capacity := capacity }
    let tail ← reserveFrom quota windows ledger base anticipated estimates (index + 1) rest
    return resv :: tail

theorem reserveFrom_spec {quota : Quota} {windows : Windows} {ledger : SpendLedger}
    {base anticipated : Int} {estimates : List (Option ℚ)}
    (hpos : ∀ e, some e ∈ estimates → 0 < e) :
    ∀ (rest : List QuotaWindow) (index : Nat) (list : List Reservation),
      reserveFrom quota windows ledger base anticipated estimates index rest = .ok list →
      list.length = rest.length ∧ ∀ resv ∈ list, 0 ≤ resv.capacity := by
  intro rest
  induction rest with
  | nil =>
    intro index list h
    cases h
    simp
  | cons quotaWindow rest ih =>
    intro index list h
    rw [reserveFrom] at h
    cases hf : ledger.finishedSince (probeAt windows quotaWindow) with
    | error e => simp [hf, bind, Except.bind] at h
    | ok finished =>
      cases ht : reserveFrom quota windows ledger base anticipated estimates (index + 1) rest with
      | error e => simp [hf, ht, bind, Except.bind] at h
      | ok tail =>
        simp only [hf, ht, bind, Except.bind, pure, Except.pure, Except.ok.injEq] at h
        obtain ⟨hlen, hcap⟩ := ih (index + 1) tail ht
        subst h
        refine ⟨by simp [hlen], ?_⟩
        intro resv hmem
        rcases List.mem_cons.mp hmem with rfl | hmem
        · exact quota.capacityWithin_nonneg hpos _ index
        · exact hcap resv hmem

def reservations (quota : Quota) (ledger : SpendLedger) (windows : Windows) (anticipated : Int) :
    Except Text (Reservations quota) := do
  let running ← ledger.runningEstimate
  let estimates ← quota.windows.mapM fun quotaWindow =>
    ledger.estimateCapacity quotaWindow.limitId
  let values := estimates.map (Option.map Subtype.val)
  match h : reserveFrom quota windows ledger (running + anticipated) anticipated values 0
      quota.windows with
  | .error e => .error e
  | .ok list =>
    have hpos : ∀ e, some e ∈ values → 0 < e := by
      intro e he
      obtain ⟨estimate, _, hmap⟩ := List.mem_map.mp he
      obtain ⟨capacity, _, rfl⟩ := Option.map_eq_some_iff.mp hmap
      exact capacity.property
    have hspec := reserveFrom_spec hpos quota.windows 0 list h
    .ok { list := list, length_eq := hspec.1, capacity_nonneg := hspec.2 }

/-- A usage row together with a quota window that gates it and that window's reservation. -/
structure GatingRow where
  quotaWindow : QuotaWindow
  resv : Reservation
  lid : Text
  window : WindowState

/-- The rows in the order the decision visits them: quota windows first, keys within. -/
def gatingRows (quota : Quota) (windows : Windows) (resv : List Reservation) : List GatingRow :=
  (quota.windows.zip resv).flatMap fun w =>
    (windows.rows.filter fun row => w.1.gates row.1).map fun row =>
      { quotaWindow := w.1, resv := w.2, lid := row.1, window := row.2 }

def GatingRow.expired (row : GatingRow) (nowMs : Int) : Bool :=
  row.window.resetsAt.any fun resetsAt => 0 < resetsAt && resetsAt ≤ nowMs

/-- Reported usage and allowance of a row that is neither expired, unknown nor inactive. -/
def GatingRow.active (quota : Quota) (nowMs : Int) (row : GatingRow) : Option (ℚ × ℚ) :=
  if row.expired nowMs then none
  else do
    let reported ← quota.effectiveUsed row.window
    let allowed ← row.quotaWindow.ramp row.window.resetsAt nowMs
    some (reported, allowed)

/-- Share of the window left up to its hard limit, in tokens before rounding. -/
def GatingRow.headroom (row : GatingRow) (reported : ℚ) : ℚ :=
  max (1 - (reported + row.resv.budget)) 0

def denyReason (row : GatingRow) (reported allowed : ℚ) : Text :=
  row.lid ++ ": used ".toList ++ Text.fixed2 reported ++ " + unaccounted ".toList
    ++ Text.fixed2 row.resv.gate ++ " = ".toList ++ Text.fixed2 (reported + row.resv.gate)
    ++ " >= ramp ".toList ++ Text.fixed2 allowed

/-- The verdict at a row that is at or over its ramp. -/
def verdictOver (quota : Quota) (prio : Bool) (row : GatingRow) (reported allowed : ℚ) : Verdict :=
  let exhausted := quota.isHardStop row.window
  let retryAt : Option ℚ :=
    if exhausted then row.window.resetsAt.map (fun reset => (reset : ℚ))
    else row.quotaWindow.retryAt row.window.resetsAt (reported + row.resv.gate)
  let reason := denyReason row reported allowed
  let cap := row.resv.tokens (row.headroom reported)
  if prio && !exhausted && decide (0 < cap) then
    .granted (some cap) ("prio override (".toList ++ reason ++ ")".toList)
  else .denied reason retryAt

/-- The loop of `decide_inner`: the verdict of the first row over its ramp. -/
def decideRows (quota : Quota) (prio : Bool) (nowMs : Int) : List GatingRow → Option Verdict
  | [] => none
  | row :: rest =>
    match row.active quota nowMs with
    | none => decideRows quota prio nowMs rest
    | some (reported, allowed) =>
      if reported + row.resv.gate < allowed then decideRows quota prio nowMs rest
      else some (verdictOver quota prio row reported allowed)

def GatingRow.cap (quota : Quota) (prio : Bool) (nowMs : Int) (row : GatingRow) : Option Int := do
  let used ← quota.effectiveUsed row.window
  let ramp ← row.quotaWindow.ramp row.window.resetsAt nowMs
  let ceiling := if prio then 1 else ramp
  some (row.resv.tokens (max (ceiling - used - row.resv.budget) 0))

def computeHeadroom (quota : Quota) (windows : Windows) (resv : List Reservation) (prio : Bool)
    (nowMs : Int) : Option Int :=
  ((gatingRows quota windows resv).filterMap (GatingRow.cap quota prio nowMs)).min?

def decideInner (quota : Quota) (windows : Windows) (resv : List Reservation) (prio : Bool)
    (nowMs : Int) : Verdict :=
  if windows.rows.isEmpty then
    .denied "no window data -- deny until fresh".toList none
  else
    match decideRows quota prio nowMs (gatingRows quota windows resv) with
    | some verdict => verdict
    | none => .granted (computeHeadroom quota windows resv prio nowMs) "ok".toList

def upgrade (normalCap prioHeadroom : Option Int) (reason : Text) : Verdict :=
  match prioHeadroom, normalCap with
  | some ph, none => .granted (some ph) "ok".toList
  | some ph, some nc =>
    if nc < ph then .granted (some ph) "ok".toList else .granted (some nc) reason
  | none, nc => .granted nc reason

def prioritizedOf (quota : Quota) (windows : Windows) (resv : List Reservation) (nowMs : Int) :
    Verdict → Verdict
  | .granted normalCap reason =>
    upgrade normalCap (computeHeadroom quota windows resv true nowMs) reason
  | .denied _ _ => decideInner quota windows resv true nowMs

/-- `decide_with_windows`; `reserve` stands for the reservations read from the ledger. -/
def decideWithWindows (provider : LlmProvider)
    (reserve : Windows → Int → Except Text (Reservations provider.quota)) (windows : Windows)
    (anticipatedTokens : Int) (now : Int) : Except Text Outlook :=
  match provider.quota.windows.find? (fun quotaWindow => quotaWindow.isMissing windows now) with
  | some missing =>
    let denied := Verdict.denied (missing.limitId ++ " unknown -- deny until fresh".toList) none
    .ok { normal := denied, prioritized := denied }
  | none => do
    let resv ← reserve windows anticipatedTokens
    let normal := decideInner provider.quota windows resv.list false now
    .ok {
      normal := normal
      prioritized := prioritizedOf provider.quota windows resv.list now normal }

end Hunter.Scavenge
