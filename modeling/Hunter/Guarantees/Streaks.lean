import Hunter.Alone
import Hunter.Replay
import Hunter.Changes.Requests
import Hunter.Scheduler.Fix
import Hunter.Scheduler.Harvest
import Hunter.Scheduler.Recheck
set_option autoImplicit false

namespace Hunter
open Effect

/-! When a finding's repeated failures end its work. -/

section
variable {α : Type} [DecidableEq α]

def streak : List α → Nat
  | [] => 0
  | x :: rest => (rest.takeWhile (· = x)).length + 1

/-- At least `n` elements, the first `n` of them identical. -/
def FirstIdentical (n : Nat) (xs : List α) : Prop :=
  n ≤ xs.length ∧ ∀ a ∈ xs.take n, ∀ b ∈ xs.take n, a = b

omit [DecidableEq α] in
theorem le_length_takeWhile {p : α → Bool} {n : Nat} {xs : List α} :
    n ≤ (xs.takeWhile p).length ↔ n ≤ xs.length ∧ ∀ a ∈ xs.take n, p a = true := by
  induction xs generalizing n with
  | nil => simp
  | cons x rest ih =>
    cases n with
    | zero => simp
    | succ n =>
      by_cases hx : p x = true
      · simp [hx, ih]
      · simp [hx]

theorem le_streak_iff {n : Nat} {xs : List α} : n ≤ streak xs ↔ FirstIdentical n xs := by
  cases xs with
  | nil => simp [streak, FirstIdentical]
  | cons x rest =>
    cases n with
    | zero => simp [FirstIdentical]
    | succ n =>
      have hwhile : n ≤ (rest.takeWhile (· = x)).length ↔
          n ≤ rest.length ∧ ∀ a ∈ rest.take n, decide (a = x) = true := le_length_takeWhile
      simp only [decide_eq_true_eq] at hwhile
      simp only [streak, FirstIdentical, Nat.add_le_add_iff_right, hwhile, List.length_cons,
        List.take_succ_cons, List.mem_cons]
      refine and_congr_right fun _ => ⟨?_, ?_⟩
      · rintro hsame a (rfl | ha) b (rfl | hb)
        · rfl
        · exact (hsame b hb).symm
        · exact hsame a ha
        · rw [hsame a ha, hsame b hb]
      · intro hsame a ha
        exact hsame a (Or.inr ha) x (Or.inl rfl)

theorem streak_cons (x : α) (xs : List α) :
    streak (x :: xs) = if xs.head? = some x then streak xs + 1 else 1 := by
  cases xs with
  | nil => rfl
  | cons y rest =>
    by_cases hy : y = x
    · subst hy
      simp [streak]
    · simp [streak, hy]

end

inductive StreakKind
  | fix | recheck | harvest
  deriving DecidableEq

namespace Finding

/-- A kind's counter and its last failure; a harvest's stand in the `pr_state` row. -/
def streakOf (f : Finding) : StreakKind → Nat × Option Text
  | .fix => (f.fixAttempts, f.lastFixFailure)
  | .recheck => (f.recheckAttempts, f.lastRecheckFailure)
  | .harvest =>
    ((f.prState.map PrState.harvestAttempts).getD 0, f.prState.bind PrState.lastHarvestFailure)

def tracks (f : Finding) : StreakKind → Bool
  | .harvest => f.prState.isSome
  | _ => true

def takenOut (f : Finding) : StreakKind → Prop
  | .fix => f.status = .blocked
  | .recheck => f.status = .new
  | .harvest => (f.prState.bind PrState.harvestedAt).isSome = true

def harvested (f : Finding) : Option Int := f.prState.bind PrState.harvestedAt

end Finding

def streakColumns (failures : List Text) : Nat × Option Text := (streak failures, failures.head?)

theorem streakAfter_columns (failures : List Text) (failure : Text) :
    streakAfter (streakColumns failures).2 (streakColumns failures).1 failure =
      streak (failure :: failures) := by
  rw [streak_cons]
  rfl

inductive Failure
  | fix (job : Nat) (key detail : Text)
  | recheck (key : Text) (mode : Option BudgetOverride)
  | harvest (key : Text)

namespace Failure

def kind : Failure → StreakKind
  | fix _ _ _ => .fix
  | recheck _ _ => .recheck
  | harvest _ => .harvest

def key : Failure → Text
  | fix _ key _ | recheck key _ | harvest key => key

def handle (fid : Nat) : Failure → Act Bool
  | fix job key detail => recordFixFailure fid job key detail
  | recheck key mode => handleRecheckFailure fid key mode
  | harvest key => recordHarvestFailure fid key

end Failure

/-- `clear_fix_attempts` and its siblings. -/
def clearStreak (fid : Nat) : StreakKind → Act Unit
  | .fix => clearFixAttempts fid
  | .recheck => clearRecheckAttempts fid
  | .harvest => clearHarvestAttempts fid

/-- What a handled failure leaves of its finding's row. -/
structure Handling (kind : StreakKind) (key : Text) (f f' : Finding) (ended : Bool) : Prop where
  ended_iff : ended = true ↔
    f.tracks kind = true ∧
      maxConsecutiveSameFailure ≤ streakAfter (f.streakOf kind).2 (f.streakOf kind).1 key
  columns : f'.streakOf kind =
    if ended = true then (0, none)
    else if f.tracks kind = true then
      (streakAfter (f.streakOf kind).2 (f.streakOf kind).1 key, some key)
    else f.streakOf kind
  others : ∀ other, other ≠ kind → f'.streakOf other = f.streakOf other
  takenOut : ended = true → f'.takenOut kind
  kept : ended = false → f'.status = f.status ∧ f'.harvested = f.harvested

section
variable {fid : Nat} {w w' : World} {f : Finding} {ended : Bool}

theorem finding?_blockFixJob {s t : Store} {job : Nat} {reason : Text}
    (hf : s.finding? fid = some f) (h : s.blockFixJob fid job reason = some t) :
    t.finding? fid =
      some { f with status := .blocked, fixAttempts := 0, lastFixFailure := none } := by
  unfold Store.blockFixJob at h
  split at h
  · split at h
    · cases h
      simp [hf]
    · cases h
  · cases h

theorem handling_fix {job : Nat} {key detail : Text} (hf : w.store.finding? fid = some f)
    (h : EndsAlone (recordFixFailure fid job key detail) w ended w') :
    ∃ f', w'.store.finding? fid = some f' ∧ Handling .fix key f f' ended := by
  generalize hstreak : streakAfter f.lastFixFailure f.fixAttempts key = n at *
  by_cases hlow : n < maxConsecutiveSameFailure
  · have hend : ended = false ∧
        w' = { w with store := w.store.setFixAttempts fid n (some key) } := by
      simpa [recordFixFailure, recordFixAttempt, sql, Prog.try_, StoreCall.apply, hf, hstreak,
        hlow] using h
    obtain ⟨rfl, rfl⟩ := hend
    refine ⟨{ f with fixAttempts := n, lastFixFailure := some key },
      by simp [Store.setFixAttempts, hf], ?_⟩
    exact {
      ended_iff := by simpa [Finding.streakOf, Finding.tracks, hstreak] using hlow
      columns := by simp [Finding.streakOf, Finding.tracks, hstreak]
      others := fun other hother => by cases other <;> first | exact absurd rfl hother | rfl
      takenOut := by simp
      kept := fun _ => ⟨rfl, rfl⟩ }
  · obtain ⟨s, hblock, rfl, rfl⟩ : ∃ s,
        (w.store.setFixAttempts fid n (some key)).blockFixJob fid job
          (streakHoldReport n key detail) = some s ∧
        ended = true ∧ w' = { w with store := s } := by
      simpa [recordFixFailure, recordFixAttempt, holdBlocked, sql, sqlResult, Prog.try_, Prog.ask,
        StoreCall.apply, hf, hstreak, hlow] using h
    have hrow : (w.store.setFixAttempts fid n (some key)).finding? fid =
        some { f with fixAttempts := n, lastFixFailure := some key } := by
      simp [Store.setFixAttempts, hf]
    refine ⟨_, finding?_blockFixJob hrow hblock, ?_⟩
    exact {
      ended_iff := by simpa [Finding.streakOf, Finding.tracks, hstreak] using hlow
      columns := by simp [Finding.streakOf]
      others := fun other hother => by cases other <;> first | exact absurd rfl hother | rfl
      takenOut := fun _ => rfl
      kept := by simp }

theorem finding?_clearOnce {mode : Option BudgetOverride} (hf : w.store.finding? fid = some f)
    (h : EndsAlone (clearOnce fid mode) w () w') :
    w'.store.finding? fid =
      some { f with budgetOverride := if mode = some .once then none else f.budgetOverride } := by
  by_cases hmode : mode = some .once
  · obtain rfl : w' = { w with store := w.store.setBudgetOverride fid none } := by
      simpa [clearOnce, hmode, logWriteFailure, StoreCall.apply] using h
    simp [Store.setBudgetOverride, hf, hmode]
  · obtain rfl : w' = w := by simpa [clearOnce, hmode] using h
    simp [hf, hmode]

theorem handling_recheck {key : Text} {mode : Option BudgetOverride}
    (hf : w.store.finding? fid = some f)
    (h : EndsAlone (handleRecheckFailure fid key mode) w ended w') :
    ∃ f', w'.store.finding? fid = some f' ∧ Handling .recheck key f f' ended := by
  generalize hstreak : streakAfter f.lastRecheckFailure f.recheckAttempts key = n at *
  obtain ⟨stuck, v, hstuck, hrest⟩ := endsAlone_bind.1 h
  obtain ⟨_, v', honce, hlast⟩ := endsAlone_bind.1 hrest
  obtain ⟨rfl, rfl⟩ : ended = stuck ∧ w' = v' := by simpa using hlast
  by_cases hlow : n < maxConsecutiveSameFailure
  · obtain ⟨rfl, rfl⟩ : ended = false ∧
        v = { w with store := w.store.setRecheckAttempts fid n (some key) } := by
      simpa [recordRecheckAttempt, sql, Prog.try_, StoreCall.apply, hf, hstreak, hlow] using hstuck
    have hrow : (w.store.setRecheckAttempts fid n (some key)).finding? fid =
        some { f with recheckAttempts := n, lastRecheckFailure := some key } := by
      simp [Store.setRecheckAttempts, hf]
    refine ⟨_, finding?_clearOnce hrow honce, ?_⟩
    exact {
      ended_iff := by simpa [Finding.streakOf, Finding.tracks, hstreak] using hlow
      columns := by simp [Finding.streakOf, Finding.tracks, hstreak]
      others := fun other hother => by cases other <;> first | exact absurd rfl hother | rfl
      takenOut := by simp
      kept := fun _ => ⟨rfl, rfl⟩ }
  · obtain ⟨rfl, rfl⟩ : ended = true ∧
        v = { w with store := ((w.store.setRecheckAttempts fid n (some key)).setFindingStatus fid
          .new).setRecheckAttempts fid 0 none } := by
      simpa [recordRecheckAttempt, clearRecheckAttempts, logWriteFailure, sql, sqlResult,
        Prog.try_, Prog.ask, StoreCall.apply, hf, hstreak, hlow] using hstuck
    have hrow : (((w.store.setRecheckAttempts fid n (some key)).setFindingStatus fid
        .new).setRecheckAttempts fid 0 none).finding? fid =
        some { f with status := .new, recheckAttempts := 0, lastRecheckFailure := none } := by
      simp [Store.setRecheckAttempts, Store.setFindingStatus, hf]
    refine ⟨_, finding?_clearOnce hrow honce, ?_⟩
    exact {
      ended_iff := by simpa [Finding.streakOf, Finding.tracks, hstreak] using hlow
      columns := by simp [Finding.streakOf]
      others := fun other hother => by cases other <;> first | exact absurd rfl hother | rfl
      takenOut := fun _ => rfl
      kept := by simp }

theorem handling_harvest {key : Text} (hf : w.store.finding? fid = some f)
    (h : EndsAlone (recordHarvestFailure fid key) w ended w') :
    ∃ f', w'.store.finding? fid = some f' ∧ Handling .harvest key f f' ended := by
  generalize hstreak : streakAfter (f.prState.bind PrState.lastHarvestFailure)
    ((f.prState.map PrState.harvestAttempts).getD 0) key = n at *
  have hps : w.store.prRow fid = f.prState := by simp [Store.prRow, hf]
  by_cases hlow : n < maxConsecutiveSameFailure
  · obtain ⟨rfl, rfl⟩ : ended = false ∧
        w' = { w with store := w.store.setHarvestAttempts fid n (some key) } := by
      simpa [recordHarvestFailure, recordHarvestAttempt, sql, Prog.try_, StoreCall.apply, hps,
        hstreak, hlow] using h
    refine ⟨f.updatePr fun p => { p with harvestAttempts := n, lastHarvestFailure := some key },
      by simp [Store.setHarvestAttempts, hf], ?_⟩
    exact {
      ended_iff := by simpa [Finding.streakOf, Finding.tracks, hstreak] using fun _ => hlow
      columns := by
        cases hpr : f.prState <;>
          simp_all [Finding.streakOf, Finding.tracks, Finding.updatePr]
      others := fun other hother => by cases other <;> first | exact absurd rfl hother | rfl
      takenOut := by simp
      kept := fun _ => by
        cases hpr : f.prState <;> simp [Finding.updatePr, Finding.harvested, hpr] }
  · have hpr : f.prState.isSome = true := by
      cases hpr : f.prState with
      | some p => rfl
      | none =>
        exfalso
        rw [hpr] at hstreak
        subst hstreak
        exact hlow (by simp [streakAfter, maxConsecutiveSameFailure])
    obtain ⟨now, rfl, rfl⟩ : ∃ now, ended = true ∧
        w' = { w with store := ((w.store.setHarvestAttempts fid n (some key)).markPrHarvested fid
          now).setHarvestAttempts fid 0 none } := by
      simpa [recordHarvestFailure, recordHarvestAttempt, clearHarvestAttempts, logWriteFailure,
        Hunter.ask, sql, sqlResult, Prog.try_, Prog.ask, StoreCall.apply, hps, hstreak,
        hlow] using h
    obtain ⟨p, hp⟩ := Option.isSome_iff_exists.1 hpr
    refine ⟨{ f with prState := some { p with
        harvestAttempts := 0, lastHarvestFailure := none, harvestedAt := some now } },
      by simp [Store.setHarvestAttempts, Store.markPrHarvested, Finding.updatePr, hf, hp], ?_⟩
    exact {
      ended_iff := by simpa [Finding.streakOf, Finding.tracks, hstreak, hpr] using hlow
      columns := by simp [Finding.streakOf]
      others := fun other hother => by cases other <;> first | exact absurd rfl hother | rfl
      takenOut := fun _ => rfl
      kept := by simp }

/-- Every kind's handler keeps the law of its streak. -/
theorem Failure.handling {e : Failure} (hf : w.store.finding? fid = some f)
    (h : EndsAlone (e.handle fid) w ended w') :
    ∃ f', w'.store.finding? fid = some f' ∧ Handling e.kind e.key f f' ended := by
  cases e with
  | fix job key detail => exact handling_fix hf h
  | recheck key mode => exact handling_recheck hf h
  | harvest key => exact handling_harvest hf h

def Resets (reset : StreakKind → Bool) (f f' : Finding) : Prop :=
  ∀ kind, f'.streakOf kind = if reset kind then (0, none) else f.streakOf kind

theorem resets_clearStreak {kind : StreakKind} (hf : w.store.finding? fid = some f)
    (h : EndsAlone (clearStreak fid kind) w () w') :
    ∃ f', w'.store.finding? fid = some f' ∧ Resets (· = kind) f f' := by
  cases kind with
  | fix =>
    obtain rfl : w' = { w with store := w.store.setFixAttempts fid 0 none } := by
      simpa [clearStreak, clearFixAttempts, logWriteFailure, StoreCall.apply] using h
    refine ⟨{ f with fixAttempts := 0, lastFixFailure := none },
      by simp [Store.setFixAttempts, hf], fun kind => ?_⟩
    cases kind <;> rfl
  | recheck =>
    obtain rfl : w' = { w with store := w.store.setRecheckAttempts fid 0 none } := by
      simpa [clearStreak, clearRecheckAttempts, logWriteFailure, StoreCall.apply] using h
    refine ⟨{ f with recheckAttempts := 0, lastRecheckFailure := none },
      by simp [Store.setRecheckAttempts, hf], fun kind => ?_⟩
    cases kind <;> rfl
  | harvest =>
    obtain rfl : w' = { w with store := w.store.setHarvestAttempts fid 0 none } := by
      simpa [clearStreak, clearHarvestAttempts, logWriteFailure, StoreCall.apply] using h
    refine ⟨f.updatePr fun p => { p with harvestAttempts := 0, lastHarvestFailure := none },
      by simp [Store.setHarvestAttempts, hf], fun kind => ?_⟩
    cases kind with
    | harvest => cases hpr : f.prState <;> simp [Finding.streakOf, Finding.updatePr, hpr]
    | _ => rfl

end

/-- A finding's recorded failures since each kind's last reset, newest first. -/
inductive StreakHistory (fid : Nat) : World → (StreakKind → List Text) → Prop
  | start {w : World} {f : Finding} :
      w.store.finding? fid = some f → (∀ kind, f.streakOf kind = (0, none)) →
      StreakHistory fid w fun _ => []
  | failed {w w' : World} {history : StreakKind → List Text} {f : Finding} {e : Failure}
      {ended : Bool} :
      StreakHistory fid w history → w.store.finding? fid = some f →
      EndsAlone (e.handle fid) w ended w' →
      StreakHistory fid w' (Function.update history e.kind
        (if ended then [] else if f.tracks e.kind then e.key :: history e.kind
          else history e.kind))
  | cleared {w w' : World} {history : StreakKind → List Text} {kind : StreakKind} :
      StreakHistory fid w history → EndsAlone (clearStreak fid kind) w () w' →
      StreakHistory fid w' (Function.update history kind [])
  /-- Whatever else happens; a new pull request and a hold reset a kind, too. -/
  | other {w w' : World} {history : StreakKind → List Text} {f f' : Finding}
      {reset : StreakKind → Bool} :
      StreakHistory fid w history → w.store.finding? fid = some f →
      w'.store.finding? fid = some f' → Resets reset f f' →
      StreakHistory fid w' fun kind => if reset kind then [] else history kind

theorem StreakHistory.columns {fid : Nat} {w : World} {history : StreakKind → List Text}
    (h : StreakHistory fid w history) :
    ∃ f, w.store.finding? fid = some f ∧
      ∀ kind, f.streakOf kind = streakColumns (history kind) := by
  induction h with
  | start hf hfresh => exact ⟨_, hf, hfresh⟩
  | @failed w w' history f e ended _ hf hhandle ih =>
    obtain ⟨x, hx, hcolumns⟩ := ih
    obtain rfl : x = f := by
      rw [hx] at hf
      exact Option.some.inj hf
    obtain ⟨f', hf', hhandling⟩ := e.handling hx hhandle
    refine ⟨f', hf', fun kind => ?_⟩
    by_cases hkind : kind = e.kind
    · subst hkind
      rw [Function.update_self, hhandling.columns, hcolumns, streakAfter_columns]
      cases ended with
      | true => rfl
      | false => cases x.tracks e.kind <;> rfl
    · rw [Function.update_of_ne hkind, hhandling.others kind hkind, hcolumns]
  | @cleared w w' history kind _ hclear ih =>
    obtain ⟨f, hf, hcolumns⟩ := ih
    obtain ⟨f', hf', hresets⟩ := resets_clearStreak hf hclear
    refine ⟨f', hf', fun other => ?_⟩
    rw [hresets, hcolumns]
    by_cases hother : other = kind
    · subst hother
      simp [streakColumns, streak]
    · simp [hother]
  | @other w w' history f f' reset _ hf hf' hresets ih =>
    obtain ⟨x, hx, hcolumns⟩ := ih
    obtain rfl : x = f := by
      rw [hx] at hf
      exact Option.some.inj hf
    refine ⟨f', hf', fun kind => ?_⟩
    rw [hresets, hcolumns]
    by_cases hreset : reset kind = true
    · simp [hreset, streakColumns, streak]
    · simp [hreset]

theorem Resets.refl (f : Finding) : Resets (fun _ => false) f f := fun _ => rfl

theorem Resets.trans {reset reset' : StreakKind → Bool} {f g h : Finding} (hfg : Resets reset f g)
    (hgh : Resets reset' g h) : Resets (fun kind => reset kind || reset' kind) f h := by
  intro kind
  rw [hgh, hfg]
  cases hreset : reset kind <;> simp [hreset]

/-- Each kind's columns are kept or reset. -/
def KeepsStreaks (f f' : Finding) : Prop := ∃ reset, Resets reset f f'

namespace KeepsStreaks
variable {f f' f'' : Finding}

theorem refl (f : Finding) : KeepsStreaks f f := ⟨_, Resets.refl f⟩

theorem trans (h : KeepsStreaks f f') (h' : KeepsStreaks f' f'') : KeepsStreaks f f'' := by
  obtain ⟨_, h⟩ := h
  obtain ⟨_, h'⟩ := h'
  exact ⟨_, h.trans h'⟩

theorem ofSame (h : ∀ kind, f'.streakOf kind = f.streakOf kind) : KeepsStreaks f f' :=
  ⟨fun _ => false, h⟩

theorem ofPr {ps : Option PrState}
    (h : ({ f with prState := ps } : Finding).streakOf .harvest = f.streakOf .harvest ∨
      ({ f with prState := ps } : Finding).streakOf .harvest = (0, none)) :
    KeepsStreaks f { f with prState := ps } := by
  rcases h with h | h
  · refine ofSame fun kind => ?_
    cases kind with
    | harvest => exact h
    | _ => rfl
  · refine ⟨(· = .harvest), fun kind => ?_⟩
    cases kind with
    | harvest => exact h
    | _ => rfl

end KeepsStreaks

theorem PrState.forNumber_streak (p : PrState) (prNumber : Int) :
    ((p.forNumber prNumber).harvestAttempts, (p.forNumber prNumber).lastHarvestFailure) =
        (p.harvestAttempts, p.lastHarvestFailure) ∨
      ((p.forNumber prNumber).harvestAttempts, (p.forNumber prNumber).lastHarvestFailure) =
        (0, none) := by
  unfold forNumber
  split
  · exact Or.inr rfl
  · exact Or.inl rfl

theorem keepsStreaks_upsertPr {f : Finding} {u : PrState → PrState} (prNumber : Int)
    (h : ∀ p, ((u p).harvestAttempts, (u p).lastHarvestFailure) =
      ((p.forNumber prNumber).harvestAttempts, (p.forNumber prNumber).lastHarvestFailure)) :
    KeepsStreaks f (f.upsertPr u) := by
  refine KeepsStreaks.ofPr ?_
  have hnumber := (f.prState.getD {}).forNumber_streak prNumber
  rw [← h] at hnumber
  cases hp : f.prState with
  | none => simpa [Finding.streakOf, hp] using hnumber
  | some p => simpa [Finding.streakOf, hp] using hnumber

theorem keepsStreaks_updatePr {f : Finding} {u : PrState → PrState}
    (h : ∀ p, (u p).harvestAttempts = p.harvestAttempts ∧
      (u p).lastHarvestFailure = p.lastHarvestFailure) :
    KeepsStreaks f (f.updatePr u) := by
  refine KeepsStreaks.ofPr (Or.inl ?_)
  cases hp : f.prState with
  | none => simp [Finding.streakOf, hp]
  | some p => simp [Finding.streakOf, hp, h p]

def StoreCall.countsStreak : {β : Type} → StoreCall β → Prop
  | _, .setFixAttempts _ _ _ | _, .setRecheckAttempts _ _ _ | _, .setHarvestAttempts _ _ _ => True
  | _, _ => False

theorem PrState.synced_streak (p : PrState) (d : SyncPrData) :
    ((p.synced d).harvestAttempts, (p.synced d).lastHarvestFailure) =
      ((p.forNumber d.prNumber).harvestAttempts, (p.forNumber d.prNumber).lastHarvestFailure) := by
  unfold synced
  dsimp only
  split <;> rfl

open Store in
theorem keepsStreaks_handOver {acc : Store × Nat} {pair : Nat × Nat} :
    Edits (fun _ => KeepsStreaks) acc.1 (Store.handOver acc pair).1 := by
  have hrefl := fun (_ : Nat) x => KeepsStreaks.refl x
  unfold handOver
  dsimp only
  split
  · refine Edits.trans (fun _ _ _ _ => KeepsStreaks.trans)
      (edits_updateFindingIf hrefl fun x _ => ?_) (edits_updateFindingIf hrefl fun x _ => ?_)
    · exact .ofSame fun kind => by cases kind <;> rfl
    · exact .ofSame fun kind => by cases kind <;> rfl
  · exact edits_sameFindings hrefl rfl

open Store in
theorem StoreCall.keepsStreaks {β : Type} {c : StoreCall β} {s s' : Store} {b : β}
    (h : c.apply s = some (b, s')) (hc : ¬ c.countsStreak) :
    Edits (fun _ => KeepsStreaks) s s' := by
  have hrefl := fun (_ : Nat) x => KeepsStreaks.refl x
  have hsame : ∀ {x x' : Finding}, x'.prState = x.prState → x'.fixAttempts = x.fixAttempts →
      x'.lastFixFailure = x.lastFixFailure → x'.recheckAttempts = x.recheckAttempts →
      x'.lastRecheckFailure = x.lastRecheckFailure → KeepsStreaks x x' := by
    intro x x' hpr hfix hfixFailure hrecheck hrecheckFailure
    refine .ofSame fun kind => ?_
    cases kind <;> simp only [Finding.streakOf, hpr, hfix, hfixFailure, hrecheck, hrecheckFailure]
  cases c with
  | createJob kind repoId findingId state resumedFrom =>
    simp only [apply] at h
    split at h
    · rename_i hcreate
      cases h
      exact edits_sameFindings hrefl (createJob_findings hcreate)
    · cases h
      exact edits_sameFindings hrefl rfl
  | retireStrandedSuspensions =>
    cases h
    exact edits_sameFindings hrefl findings_retireAll
  | blockFixJob f id reason =>
    simp only [apply, Option.map_eq_some_iff, Store.blockFixJob] at h
    obtain ⟨t, ht, hts⟩ := h
    cases hts
    split at ht
    · split at ht
      · cases ht
        refine Edits.ofModifyJob (edits_modifyFinding hrefl fun x _ => ?_)
        exact ⟨(· = .fix), fun kind => by cases kind <;> rfl⟩
      · cases ht
    · cases ht
  | setFindingStatus | setAnchoredVerdict | setFindingPrOpen | updateFindingAnalysis
  | setBudgetOverride =>
    cases h
    exact edits_modifyFinding hrefl fun x _ => hsame rfl rfl rfl rfl rfl
  | claimInProgress | reopenSuppressed | refreshDepUpdate | reconfirmAnchor =>
    cases h
    exact edits_updateFindingIf hrefl fun x _ => hsame rfl rfl rfl rfl rfl
  | setFixAttempts | setRecheckAttempts | setHarvestAttempts => exact absurd trivial hc
  | markPrMerged f prNumber | markPrClosed f prNumber | setPrNumber f prNumber =>
    cases h
    exact edits_modifyFinding hrefl fun x _ => keepsStreaks_upsertPr prNumber fun _ => rfl
  | syncPrOpen f d =>
    cases h
    exact edits_modifyFinding hrefl fun x _ =>
      keepsStreaks_upsertPr d.prNumber fun p => p.synced_streak d
  | markPrEngaged | setAttentionAside | markPrHarvested =>
    cases h
    exact edits_modifyFinding hrefl fun x _ => keepsStreaks_updatePr fun _ => ⟨rfl, rfl⟩
  | recordClosedHarvest f status reason anchor t =>
    cases h
    have hclassify : Edits (fun _ => KeepsStreaks) s (s.updateFindingIf f
        (fun f => f.status = .closed) (Finding.setVerdict status reason anchor)).1 :=
      edits_updateFindingIf hrefl fun x _ => hsame rfl rfl rfl rfl rfl
    have hstamp : ∀ t' : Store, Edits (fun _ => KeepsStreaks) t' (t'.markPrHarvested f t) :=
      fun t' => edits_modifyFinding hrefl fun x _ => keepsStreaks_updatePr fun _ => ⟨rfl, rfl⟩
    exact hclassify.trans (fun _ _ _ _ => KeepsStreaks.trans) (hstamp _)
  | upsertFinding repoId row type =>
    simp only [apply, Option.some.injEq, Prod.mk.injEq] at h
    obtain ⟨-, rfl⟩ := h
    unfold Store.upsertFinding
    split
    · exact edits_sameFindings hrefl rfl
    · exact edits_addFinding hrefl
  | supersedeUnproposedDepUpdates =>
    cases h
    refine edits_map _ fun f x => ?_
    split
    · exact hsame rfl rfl rfl rfl rfl
    · exact KeepsStreaks.refl x
  | handOverQueuedDepUpdates repoId moves =>
    cases h
    suffices hfold : ∀ (pairs : List (Nat × Nat)) (acc : Store × Nat),
        Edits (fun _ => KeepsStreaks) acc.1 (pairs.foldl Store.handOver acc).1 from hfold _ (s, 0)
    intro pairs
    induction pairs with
    | nil => exact fun acc => edits_sameFindings hrefl rfl
    | cons pair rest ih =>
      exact fun acc => keepsStreaks_handOver.trans (fun _ _ _ _ => KeepsStreaks.trans) (ih _)
  | forgetDeletedRepo =>
    cases h
    exact edits_sameFindings hrefl findings_forgetDeletedRepo
  | _ =>
    cases h
    exact edits_sameFindings hrefl rfl

open Store in
theorem Accepts.keepsStreaks {s s' : Store} {r : Request} (h : Accepts s r s') :
    Edits (fun _ => KeepsStreaks) s s' := by
  have hrefl := fun (_ : Nat) x => KeepsStreaks.refl x
  have hsame : ∀ (x : Finding) (status : FindingStatus) (reason : Option Text)
      (anchor : Option VerdictAnchor) (mode : Option BudgetOverride),
      KeepsStreaks x { x with
        status := status, verdictReason := reason, anchor := anchor, budgetOverride := mode } :=
    fun x _ _ _ _ => .ofSame fun kind => by cases kind <;> rfl
  cases h with
  | verdict =>
    unfold applyVerdict
    split <;> exact edits_updateFindingIf hrefl fun x _ => hsame x _ _ _ _
  | recheck => exact edits_updateFindingIf hrefl fun x _ => hsame x _ _ _ _
  | unqueue => exact edits_updateFindingIf hrefl fun x _ => hsame x _ _ _ _
  | override => exact edits_modifyFinding hrefl fun x _ => hsame x _ _ _ _
  | clearOverrides => exact edits_map _ fun _ x => hsame x _ _ _ _
  | addRepo | updateRepo | fullHunt => exact edits_sameFindings hrefl rfl
  | deleteRepo => exact edits_sameFindings hrefl findings_softDeleteRepo
  | reapRepo => exact edits_sameFindings hrefl findings_forgetDeletedRepo

theorem StreakHistory.keeps {fid : Nat} {w w' : World} {history : StreakKind → List Text}
    {f : Finding} (h : StreakHistory fid w history) (hf : w.store.finding? fid = some f)
    (hedits : w.store.Edits (fun _ => KeepsStreaks) w'.store) :
    ∃ reset : StreakKind → Bool,
      StreakHistory fid w' fun kind => if reset kind then [] else history kind := by
  obtain ⟨f', hf', reset, hreset⟩ := hedits fid f hf
  exact ⟨reset, h.other hf hf' hreset⟩

/-- A handler takes a finding out of its kind's tier exactly at the last of so many identical
failures, and neither a failure nor a clear touches another kind's streak. -/
theorem streaks_exact {fid : Nat} {w : World} {history : StreakKind → List Text}
    (h : StreakHistory fid w history) :
    ∃ f, w.store.finding? fid = some f ∧
      (∀ (e : Failure) (ended : Bool) (w' : World), EndsAlone (e.handle fid) w ended w' →
        ∃ f', w'.store.finding? fid = some f' ∧
          (ended = true ↔ f.tracks e.kind = true ∧
            FirstIdentical maxConsecutiveSameFailure (e.key :: history e.kind)) ∧
          (ended = true → f'.takenOut e.kind) ∧
          (ended = false → f'.status = f.status ∧ f'.harvested = f.harvested) ∧
          ∀ other, other ≠ e.kind → f'.streakOf other = f.streakOf other) ∧
      ∀ (kind : StreakKind) (w' : World), EndsAlone (clearStreak fid kind) w () w' →
        ∃ f', w'.store.finding? fid = some f' ∧
          ∀ other, other ≠ kind → f'.streakOf other = f.streakOf other := by
  obtain ⟨f, hf, hcolumns⟩ := h.columns
  refine ⟨f, hf, fun e ended w' hhandle => ?_, fun kind w' hclear => ?_⟩
  · obtain ⟨f', hf', hhandling⟩ := e.handling hf hhandle
    refine ⟨f', hf', ?_, hhandling.takenOut, hhandling.kept, hhandling.others⟩
    rw [hhandling.ended_iff, hcolumns, streakAfter_columns, le_streak_iff]
  · obtain ⟨f', hf', hresets⟩ := resets_clearStreak hf hclear
    refine ⟨f', hf', fun other hother => ?_⟩
    rw [hresets]
    simp [hother]

def stalled : Failure := .recheck "stalled".toList none

def streakWorld : World where
  trees := []
  store := {
    repos := []
    jobs := []
    findings := [{ type := .bug, repoId := 0, report := sampleInsert, status := .rechecking }] }

def afterFailure (e : Failure) (w : World) : World := (Machine.replay alone (e.handle 0) w).2

def afterThree : World :=
  afterFailure stalled
    (afterFailure (.fix 0 "no patch".toList []) (afterFailure stalled streakWorld))

theorem streakHistory_afterThree :
    ∃ history, StreakHistory 0 afterThree history ∧
      history .recheck = ["stalled".toList, "stalled".toList] := by
  have hstart : StreakHistory 0 streakWorld fun _ => [] :=
    .start rfl fun kind => by cases kind <;> rfl
  have hfirst := hstart.failed (e := stalled) rfl
    (endsAlone_replay (a := false) (w := streakWorld) rfl)
  have hfix := hfirst.failed (e := .fix 0 "no patch".toList []) rfl
    (endsAlone_replay (a := false) rfl)
  have hsecond := hfix.failed (e := stalled) rfl (endsAlone_replay (a := false) rfl)
  exact ⟨_, hsecond, rfl⟩

/-- The third failed recheck is the last. -/
theorem streaks_exact_third :
    ∃ history, StreakHistory 0 afterThree history ∧
      ∃ f, afterThree.store.finding? 0 = some f ∧ f.status = .rechecking ∧
        ∀ (ended : Bool) (w' : World), EndsAlone (stalled.handle 0) afterThree ended w' →
          ended = true ∧ ∃ f', w'.store.finding? 0 = some f' ∧ f'.status = .new := by
  obtain ⟨history, hhistory, hrecheck⟩ := streakHistory_afterThree
  obtain ⟨f, hf, hhandle, -⟩ := streaks_exact hhistory
  refine ⟨history, hhistory, f, hf, ?_, fun ended w' h => ?_⟩
  · cases hf
    rfl
  · obtain ⟨f', hf', hended, htaken, -⟩ := hhandle stalled ended w' h
    have hlast : ended = true := by
      rw [hended, show history stalled.kind = _ from hrecheck]
      refine ⟨rfl, by decide, ?_⟩
      decide
    exact ⟨hlast, f', hf', htaken hlast⟩

end Hunter
