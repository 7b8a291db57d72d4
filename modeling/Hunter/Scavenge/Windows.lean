import Hunter.Checked
import Hunter.Scavenge.Provider
import Hunter.SortedMap
import Mathlib.Data.Char
import Mathlib.Data.List.Lex

set_option autoImplicit false

namespace Hunter.Scavenge
open Checked

def Period.fixedMs : Period → Option Int
  | .fixed periodMs => some periodMs
  | .calendarMonth => none

def Quota.window (quota : Quota) (limitId : Text) : Option QuotaWindow :=
  quota.windows.find? fun quotaWindow => quotaWindow.limitId = limitId

def Quota.gatingWindow (quota : Quota) (limitId : Text) : Option QuotaWindow :=
  quota.windows.find? fun quotaWindow => quotaWindow.gates limitId

/-- The newest `usage_history` row of a limit. -/
structure UsageRow where
  limitId : Text
  usedFraction : Option ℚ
  status : Option Text
  resetsAt : Option Int
  recordedAt : Int

/-- What the query answers: one row a limit, `none` one with a cell that does not decode. -/
structure Snapshot where
  rows : List (Option UsageRow)
  distinct : ((rows.filterMap id).map UsageRow.limitId).Nodup

/-- Why no map comes back: arithmetic out of range, a foreign cell, or the loop still running. -/
inductive ReadFailure where
  | panicked (panic : Panic)
  | undecodable
  | unfinished

def orPanic {α : Type} (r : Result α) : Except ReadFailure α := r.mapError .panicked

def Windows.empty : Windows := ⟨[], List.Pairwise.nil⟩

def Windows.insert (windows : Windows) (window : WindowState) : Windows :=
  ⟨SortedMap.insert window.limitId window windows.rows,
    SortedMap.ascending_insert windows.ascending⟩

/-- The loop's reset and start of the cycle, each turn taking one of the fuel. -/
def rollForward (periodMs nowMs : Int) : Nat → Int → Int → Except ReadFailure (Int × Int)
  | 0, _, _ => .error .unfinished
  | fuel + 1, newResets, newRecorded =>
    if newResets ≤ nowMs then do
      let next ← orPanic (i64.fit (newResets + periodMs))
      rollForward periodMs nowMs fuel next newResets
    else pure (newResets, newRecorded)

def ageS (nowMs recordedAt : Int) : Except ReadFailure ℚ := do
  let age ← orPanic (i64.fit (nowMs - recordedAt))
  pure ((age : ℚ) / 1000)

def keepRow (nowMs : Int) (row : UsageRow) : Except ReadFailure (Option WindowState) := do
  let age ← ageS nowMs row.recordedAt
  pure (some ⟨row.limitId, row.usedFraction, row.status, row.resetsAt, row.recordedAt, age⟩)

/-- A row's place in the map, `none` for one that is not read or is dropped. -/
def readRow (quota : Quota) (nowMs : Int) (fuel : Nat) (row : UsageRow) :
    Except ReadFailure (Option WindowState) :=
  if !quota.readsOtherLimits && (quota.gatingWindow row.limitId).isNone then pure none
  else
    match row.resetsAt with
    | some r =>
      if 0 < r ∧ r ≤ nowMs then
        match (quota.window row.limitId).bind fun quotaWindow => quotaWindow.period.fixedMs with
        | none => pure none
        | some period => do
          let (newResets, newRecorded) ← rollForward period nowMs fuel r row.recordedAt
          let age ← ageS nowMs newRecorded
          pure (some ⟨row.limitId, some 0, some "ok".toList, some newResets, newRecorded, age⟩)
      else keepRow nowMs row
    | none => keepRow nowMs row

def readRows (quota : Quota) (nowMs : Int) (fuel : Nat) :
    List (Option UsageRow) → Windows → Except ReadFailure Windows
  | [], result => pure result
  | none :: _, _ => .error .undecodable
  | some row :: rows, result => do
    match ← readRow quota nowMs fuel row with
    | none => readRows quota nowMs fuel rows result
    | some window => readRows quota nowMs fuel rows (result.insert window)

/-- The agent's database, `none` where there is none. -/
def readWindows (agentDb : Option Snapshot) (provider : LlmProvider) (nowMs : Int) (fuel : Nat) :
    Except ReadFailure Windows :=
  match agentDb with
  | none => pure Windows.empty
  | some snapshot =>
    match readRows provider.quota nowMs fuel snapshot.rows Windows.empty with
    | .error .undecodable => pure Windows.empty
    | windows => windows

end Hunter.Scavenge
