import Hunter.Store.Tables
import Mathlib.Data.List.Lex
import Mathlib.Data.List.Sort
import Mathlib.Data.Prod.Lex
set_option autoImplicit false

namespace Hunter

/-- `scan_interval_days` as milliseconds, and the other two in days. -/
structure ScanConfig where
  scanIntervalMs : Int
  modernizationIntervalDays : Int
  standardsIntervalDays : Int

/-- How long the rotation leaves a repo alone after a scan of this kind. -/
def ScanConfig.interval (cfg : ScanConfig) : RepoJobKind → Int
  | .modernization => cfg.modernizationIntervalDays * 86400000
  | .standards => cfg.standardsIntervalDays * 86400000
  | .hunt | .testGap | .depUpdate | .refactor => cfg.scanIntervalMs

def RepoJobKind.all : List RepoJobKind :=
  [.hunt, .testGap, .depUpdate, .refactor, .modernization, .standards]

/-- What the rotation reads of a `repos` row; `lastAt` are its `last_{kind}_at` columns. -/
structure RotationRow where
  id : Nat
  repo : Repo
  enabled : Bool
  lastAt : RepoJobKind → Option Int

/-- Whether a request is pending that no hunt has started to answer. -/
def fullHuntUrgent (repo : Repo) : Bool :=
  repo.fullHuntRequestedAt.isSome &&
    repo.fullHuntRequestedAt ≠ repo.fullHuntRequestAttempted

/-- `min_by_key`: the first of those with the least time. -/
def earliest : List (RepoJobKind × Int) → Option (RepoJobKind × Int)
  | [] => none
  | time :: rest =>
    match earliest rest with
    | none => some time
    | some other => if other.2 < time.2 then some other else some time

section
variable (cfg : ScanConfig) (target : RotationRow) (now : Int)

def jobTimes : List (RepoJobKind × Int) :=
  RepoJobKind.all.filterMap fun kind =>
    let last := (target.lastAt kind).getD 0
    if last = 0 || cfg.interval kind ≤ now - last then some (kind, last) else none

/-- Never run beats stale; ties go by the order of the kinds. -/
def rotationKind : Option RepoJobKind :=
  let times := jobTimes cfg target now
  ((times.find? fun time => time.2 = 0).or (earliest times)).map Prod.fst

end

/-- Urgent requests first, then repos never hunted, then those hunted longest ago. -/
def rotationKey (row : RotationRow) : Bool ×ₗ Bool ×ₗ Int :=
  toLex (!fullHuntUrgent row.repo,
    toLex ((row.lastAt .hunt).isSome, (row.lastAt .hunt).getD 0))

def staleness (repos : List RotationRow) : List RotationRow :=
  (repos.filter RotationRow.enabled).insertionSort fun a b => rotationKey a ≤ rotationKey b

end Hunter
