import Hunter.Keyed
import Hunter.Scheduler.Entries
import Mathlib
set_option autoImplicit false

namespace Hunter

namespace Json

def strOf (json : Json) (keys : List String) : Option Text := keys.findSome? json.strField

def asArray : Json → Option (List Json)
  | array items => some items
  | _ => none

def asObject : Json → Option (List (Text × Json))
  | object fields => some fields
  | _ => none

def asBool : Json → Option Bool
  | bool b => some b
  | _ => none

end Json

structure Member where
  package : Text
  datasource : Text
  current : Text
  newVersion : Text
  updateType : Text
  vulnerable : Bool
  files : List Text
  deriving DecidableEq

def Member.move (m : Member) : Text × Text × Text × Text :=
  (m.package, m.datasource, m.current, m.newVersion)

abbrev Branch := Text × List Member

def normalizeUpdateType (ut : Text) : Text :=
  if ["pin", "pinDigest", "digest", "lockFileMaintenance", "lockfileUpdate"].any
      fun t => t.toList = ut then
    "patch".toList
  else ut

def stripPrefix (start t : Text) : Text := if start.isPrefixOf t then t.drop start.length else t

/-- An update without a branch keeps the split between a non-breaking and a major one. -/
def branchKey (package updateType : Text) (u : Json) : Text :=
  match u.strField "branchName" with
  | some b => stripPrefix "renovate/".toList b
  | none =>
    if updateType = "major".toList then package ++ "-major".toList
    else package ++ "-non-major".toList

def Member.meet (m : Member) (pkgFile : Text) (vulnerable : Bool) : Member :=
  { m with
    files := if m.files.contains pkgFile then m.files else m.files ++ [pkgFile]
    vulnerable := m.vulnerable || vulnerable }

def fileMove (key : Text) (m : Member) (pkgFile : Text) (branches : List Branch) : List Branch :=
  let join := Keyed.upsert Member.move m.move (fun x => x.meet pkgFile m.vulnerable) m
  Keyed.upsert Prod.fst key (fun b => (b.1, join b.2)) (key, join []) branches

def depPackage (dep : Json) : Option Text := dep.strOf ["depName", "packageName"]

def depCurrent (dep : Json) : Text :=
  match dep.strOf ["currentVersion", "currentValue"] with
  | some c => c.dropWhile "^~>=<".toList.contains
  | none => "?".toList

/-- One update of a dependency, as a move found in one manifest. -/
def updateMember (dep : Json) (package manager pkgFile : Text) (u : Json) : Member where
  package := package
  datasource := (dep.strOf ["datasource"]).getD manager
  current := depCurrent dep
  newVersion := (u.strOf ["newVersion", "newValue"]).getD "?".toList
  updateType := normalizeUpdateType ((u.strField "updateType").getD "unknown".toList)
  vulnerable := ((u.get "isVulnerabilityAlert").bind Json.asBool).getD false
  files := [pkgFile]

/-- File each of `dep`'s updates under its Renovate branch. -/
def collectDepUpdates (dep : Json) (manager pkgFile : Text) (branches : List Branch) :
    List Branch :=
  match depPackage dep with
  | none => branches
  | some package =>
    match (dep.get "updates").bind Json.asArray with
    | none => branches
    | some updates =>
      updates.foldl (fun branches u =>
        let m := updateMember dep package manager pkgFile u
        fileMove (branchKey package m.updateType u) m pkgFile branches) branches

/-- The dependency's name when Renovate did not check it: it was skipped or its lookup failed. -/
def uncheckedDep (dep : Json) : Option Text :=
  let skipped := (dep.get "skipReason").isSome
  let failed := ((dep.get "warnings").bind Json.asArray).any fun w => !w.isEmpty
  if !(skipped || failed) then none
  else ((dep.get "depName").or (dep.get "packageName")).bind Json.asStr

structure Parsed where
  branches : List Branch := []
  unchecked : List Text := []
  lookedUp : Nat := 0

def parseDep (manager pkgFile : Text) (acc : Parsed) (dep : Json) : Parsed :=
  { acc with
    branches := collectDepUpdates dep manager pkgFile acc.branches
    unchecked :=
      match uncheckedDep dep with
      | some name => if acc.unchecked.contains name then acc.unchecked else acc.unchecked ++ [name]
      | none => acc.unchecked }

def parsePackageFile (manager : Text) (acc : Parsed) (pf : Json) : Parsed :=
  match pf.asObject with
  | none => acc
  | some _ =>
    let pkgFile := (pf.strField "packageFile").getD []
    match (pf.get "deps").bind Json.asArray with
    | none => acc
    | some deps =>
      deps.foldl (parseDep manager pkgFile)
        { acc with lookedUp := acc.lookedUp + deps.countP fun d => (d.get "skipReason").isNone }

def parseManager (acc : Parsed) (entry : Text × Json) : Parsed :=
  match entry.2.asArray with
  | none => acc
  | some files => files.foldl (parsePackageFile entry.1) acc

def parseLine (acc : Parsed) (line : Option Json) : Parsed :=
  match (line.bind fun obj => obj.get "config").bind Json.asObject with
  | none => acc
  | some config => config.foldl parseManager acc

structure DepMove where
  package : Text
  major : Bool
  deriving DecidableEq

structure DepCandidate where
  fingerprint : Text
  file : Text
  ecosystem : Text
  package : Text
  currentVersion : Text
  latestVersion : Text
  updateType : Text
  severity : Severity
  confidence : ℚ
  summary : Text
  detail : Text
  unit : Text
  moves : List DepMove

def typeRank (updateType : Text) : Nat :=
  if updateType = "major".toList then 2 else if updateType = "minor".toList then 1 else 0

def distinct (values : List Text) : List Text :=
  values.foldl (fun out v => if out.contains v then out else out ++ [v]) []

def memberSeverity (m : Member) : Severity :=
  if m.updateType = "major".toList then .high
  else if m.updateType = "minor".toList then .medium
  else if m.vulnerable then .high
  else .low

def severityRank : Severity → Nat
  | .low => 0
  | .medium => 1
  | .high => 2

def leadMember (first : Member) (rest : List Member) : Member :=
  rest.foldl (fun lead m => if typeRank lead.updateType < typeRank m.updateType then m else lead)
    first

def highestSeverity (first : Member) (rest : List Member) : Severity :=
  rest.foldl (fun sev m => if severityRank sev ≤ severityRank (memberSeverity m) then
    memberSeverity m else sev) (memberSeverity first)

def joinWith (sep : String) (values : List Text) : Text := sep.toList.intercalate values

def standing (several : Bool) (members : List Member) : List Text :=
  (members.flatMap fun m =>
    let at_ := if several then m.package ++ "=".toList ++ m.current else m.current
    List.replicate m.files.length at_).insertionSort fun a b => a ≤ b

def branchUnit (repoName key : Text) : Text := repoName ++ ":dep:".toList ++ key ++ "@".toList

def memberLine (m : Member) : Text :=
  "\n- ".toList ++ m.package ++ " (".toList ++ m.datasource ++ "): ".toList ++ m.current
    ++ " → ".toList ++ m.newVersion ++ " [".toList ++ m.updateType ++ "]".toList
    ++ (if m.vulnerable then " [security]".toList else []) ++ " in ".toList
    ++ joinWith ", " m.files

def depMoves (members : List Member) : List DepMove :=
  members.foldl (fun moves m =>
    let mv : DepMove := ⟨m.package, m.updateType = "major".toList⟩
    if moves.contains mv then moves else moves ++ [mv]) []

/-- The finding for one Renovate branch, which exists only with a member. -/
def branchCandidate (repoName key : Text) : List Member → Option DepCandidate
  | [] => none
  | first :: rest =>
    let members := first :: rest
    let updateType := (leadMember first rest).updateType
    let currentVersion := joinWith ", " (distinct (members.map Member.current))
    let latest := joinWith ", " (distinct (members.map Member.newVersion))
    let packages := distinct (members.map Member.package)
    let one := packages.length = 1
    some {
      fingerprint := branchUnit repoName key ++ joinWith "+" (standing (!one) members)
      file := joinWith ", " (distinct (members.flatMap Member.files))
      ecosystem := joinWith "+" (distinct (members.map Member.datasource))
      package := if one then first.package else key
      currentVersion := currentVersion
      latestVersion := latest
      updateType := updateType
      severity := highestSeverity first rest
      confidence :=
        if updateType = "patch".toList then 95 / 100
        else if updateType = "minor".toList then 85 / 100
        else 7 / 10
      summary :=
        if one then
          first.package ++ ": ".toList ++ updateType ++ " update ".toList ++ currentVersion
            ++ " → ".toList ++ latest
        else
          key ++ ": ".toList ++ updateType ++ " update of ".toList ++ Text.nat packages.length
            ++ " packages that move together (".toList ++ joinWith ", " packages ++ ")".toList
      detail := "Renovate branch renovate/".toList ++ key
        ++ ": one change moves all of these together.".toList ++ members.flatMap memberLine
      unit := branchUnit repoName key
      moves := depMoves members }

/-- What one Renovate scan of a repo found. -/
structure RenovateScan where
  candidates : List DepCandidate
  unchecked : List Text

/-- The lines as JSON; what the scan found, and how many dependencies were looked up. -/
def parseRenovateOutput (output : List (Option Json)) (repoName : Text) : RenovateScan × Nat :=
  let parsed := output.foldl parseLine {}
  ({ candidates := parsed.branches.filterMap fun b => branchCandidate repoName b.1 b.2
     unchecked := parsed.unchecked }, parsed.lookedUp)

def DepCandidate.entry (c : DepCandidate) : Json :=
  .object [
    ("fingerprint".toList, .string c.fingerprint), ("file".toList, .string c.file),
    ("ecosystem".toList, .string c.ecosystem), ("package".toList, .string c.package),
    ("current_version".toList, .string c.currentVersion),
    ("latest_version".toList, .string c.latestVersion),
    ("update_type".toList, .string c.updateType), ("severity".toList, .string c.severity.asStr),
    ("confidence".toList, .float c.confidence), ("summary".toList, .string c.summary),
    ("detail".toList, .string c.detail)]

def RenovateScan.depScan (parseF64 : Text → Option Double) (scan : RenovateScan) : DepScan where
  entries := scan.candidates.map fun c => readEntry parseF64 (.fixed .depUpdate) c.entry
  proposed := scan.candidates.map DepCandidate.fingerprint
  unchecked := scan.unchecked
  moves := scan.candidates.flatMap fun c => c.moves.map fun mv =>
    { fingerprint := c.fingerprint, unit := c.unit, package := mv.package, major := mv.major }

end Hunter
