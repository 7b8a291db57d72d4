import Hunter.Calls
set_option autoImplicit false

namespace Hunter

/-- A double; `serde_json` reads finite ones only. -/
inductive Double
  | finite (q : ℚ)
  | infinite (negative : Bool)
  | nan

def Double.finite? : Double → Option ℚ
  | finite q => some q
  | _ => none

inductive Json
  | null
  | bool (b : Bool)
  | int (i : Int)
  | float (q : ℚ)
  | string (t : Text)
  | array (items : List Json)
  | object (fields : List (Text × Json))

namespace Json

def get (key : String) : Json → Option Json
  | object fields => (fields.find? fun f => f.1 = key.toList).map Prod.snd
  | _ => none

def asStr : Json → Option Text
  | string t => some t
  | _ => none

def asI64 : Json → Option Int
  | int i => if -(2 ^ 63) ≤ i ∧ i < 2 ^ 63 then some i else none
  | _ => none

def asF64 : Json → Option Double
  | int i => some (.finite i)
  | float q => some (.finite q)
  | _ => none

def isFilledArray : Json → Bool
  | array items => !items.isEmpty
  | _ => false

def strField (json : Json) (key : String) : Option Text := (json.get key).bind asStr

end Json

/-- Which finding types a worker's output may hold. -/
inductive EntryTypes
  | fixed (type : FindingType)
  | mainly (type : FindingType) (also : List FindingType)
  | declared

/-- Absent is `none`; present but not a string is a type nothing parses as. -/
def declaredType (entry : Json) : Option Text := (entry.get "type").map fun v => v.asStr.getD []

def EntryTypes.resolve (types : EntryTypes) (declared : Option Text) : Option FindingType :=
  match types with
  | .fixed type => some type
  | .mainly type also =>
    if declared.all (· = type.asStr) then some type
    else (declared.bind FindingType.parse).filter fun other => also.contains other
  | .declared => FindingType.parse (declared.getD [])

def typeRequiredFields : FindingType → List String
  | .depUpdate => ["ecosystem", "package", "current_version", "latest_version", "update_type"]
  | .testGap => ["missing_tests", "test_file"]
  | .refactor => ["smell_type", "suggested_refactor"]
  | .modernization => ["modernization_class", "current_approach", "proposed_approach"]
  | .standards => ["standard_section", "current_approach", "proposed_approach"]
  | .bug => []

def listRequiredFields : List String := ["missing_tests"]

inductive EntryProblem
  | missingFingerprint
  | unknownBugClass (raw : Text)
  | unknownSeverity (raw : Text)
  | notAFilledList (field : String)
  | notAFilledString (field : String)
  | nonNumericConfidence
  | nonFiniteConfidence
  deriving DecidableEq

section
variable (parseF64 : Text → Option Double)

/-- A confidence as a number or as a string, which `parseF64` reads. -/
def confidenceOf (v : Json) : Option Double := v.asF64.or (v.asStr.bind parseF64)

def fieldProblem (entry : Json) (field : String) : Option EntryProblem :=
  if listRequiredFields.contains field then
    if (entry.get field).any Json.isFilledArray then none else some (.notAFilledList field)
  else if (entry.strField field).any fun t => !t.isEmpty then none
  else some (.notAFilledString field)

def severityProblem (raw : Text) : Option EntryProblem :=
  if (Severity.parse raw).isNone then some (.unknownSeverity raw) else none

def confidenceProblem (entry : Json) : Option EntryProblem :=
  match entry.get "confidence" with
  | none => none
  | some v =>
    match confidenceOf parseF64 v with
    | none => some .nonNumericConfidence
    | some (.finite _) => none
    | some _ => some .nonFiniteConfidence

/-- The inline validation of an entry: its first problem. -/
def entryProblem (type : FindingType) (entry : Json) : Option EntryProblem :=
  if (entry.strField "fingerprint").all List.isEmpty then some .missingFingerprint
  else
    let own :=
      if type = .bug then
        let cls := (entry.strField "bug_class").getD []
        if (BugClass.parse cls).isNone then some (.unknownBugClass cls)
        else severityProblem ((entry.strField "severity").getD [])
      else
        (severityProblem ((entry.strField "severity").getD "medium".toList)).or
          ((typeRequiredFields type).findSome? (fieldProblem entry))
    own.or (confidenceProblem parseF64 entry)

/-- `clamp(0.0, 1.0)`. -/
def clampConfidence (q : ℚ) : ℚ := max 0 (min q 1)

def entryRow (type : FindingType) (entry : Json) : FindingInsert where
  fingerprint := (entry.strField "fingerprint").getD []
  file := (entry.strField "file").getD []
  symbol := entry.strField "symbol"
  line := (entry.get "line").bind Json.asI64
  severity := (Severity.parse ((entry.strField "severity").getD "medium".toList)).getD .medium
  confidence := clampConfidence
    ((((entry.get "confidence").bind (confidenceOf parseF64)).bind Double.finite?).getD 0)
  summary := (entry.strField "summary").getD []
  detail := entry.strField "detail"
  bugClass := if type = .bug then (entry.strField "bug_class").bind BugClass.parse else none
  evidencePlan := entry.strField "evidence_plan"
  ecosystem := entry.strField "ecosystem"
  package := entry.strField "package"
  currentVersion := entry.strField "current_version"
  latestVersion := entry.strField "latest_version"
  updateType := entry.strField "update_type"
  securityAdvisory := entry.strField "security_advisory"

/-- One entry of a findings file, as far as it is valid. -/
def readEntry (types : EntryTypes) (entry : Json) : ScanEntry :=
  match types.resolve (declaredType entry), entry with
  | some type, .object _ =>
    match entryProblem parseF64 type entry with
    | some _ => none
    | none => some (type, entryRow parseF64 type entry)
  | _, _ => none

def readFindings (types : EntryTypes) : Json → FindingsFile
  | .array entries => .entries (entries.map (readEntry parseF64 types))
  | _ => .unreadable

variable {parseF64}

theorem clampConfidence_mem (q : ℚ) : 0 ≤ clampConfidence q ∧ clampConfidence q ≤ 1 :=
  ⟨le_max_left 0 _, max_le zero_le_one (min_le_right q 1)⟩

theorem confidence_of_valid {type : FindingType} {entry v : Json}
    (h : entryProblem parseF64 type entry = none) (hv : entry.get "confidence" = some v) :
    ∃ q, confidenceOf parseF64 v = some (.finite q) := by
  unfold entryProblem at h
  split at h
  · cases h
  · have hconfidence : confidenceProblem parseF64 entry = none := (Option.or_eq_none_iff.1 h).2
    simp only [confidenceProblem, hv] at hconfidence
    cases hc : confidenceOf parseF64 v with
    | none =>
      rw [hc] at hconfidence
      cases hconfidence
    | some c =>
      cases c with
      | finite q => exact ⟨q, rfl⟩
      | infinite _ | nan =>
        rw [hc] at hconfidence
        cases hconfidence

theorem readEntry_row {types : EntryTypes} {entry : Json} {type : FindingType}
    {row : FindingInsert} (h : readEntry parseF64 types entry = some (type, row)) :
    entryProblem parseF64 type entry = none ∧ row = entryRow parseF64 type entry := by
  unfold readEntry at h
  split at h
  · split at h
    · cases h
    · rename_i hvalid
      cases h
      exact ⟨hvalid, rfl⟩
  · cases h

theorem readEntry_confidence {types : EntryTypes} {entry v : Json} {type : FindingType}
    {row : FindingInsert} (h : readEntry parseF64 types entry = some (type, row))
    (hv : entry.get "confidence" = some v) :
    ∃ q, confidenceOf parseF64 v = some (.finite q) ∧ row.confidence = clampConfidence q := by
  obtain ⟨hvalid, rfl⟩ := readEntry_row h
  obtain ⟨q, hq⟩ := confidence_of_valid hvalid hv
  exact ⟨q, hq, by simp [entryRow, hv, hq, Double.finite?]⟩

end

structure RecheckVerdict where
  verdict : Option Text
  reason : Option Text
  updatedSummary : Option Text
  updatedDetail : Option Text
  updatedConfidence : Option ℚ
  updatedSeverity : Option Text
  holdsWhile : Option Text
  dependsOn : List Text

/-- An `Option<String>`; `none` is a type error. -/
def readText : Option Json → Option (Option Text)
  | none | some .null => some none
  | some (.string t) => some (some t)
  | some _ => none

def readF64 : Option Json → Option (Option ℚ)
  | none | some .null => some none
  | some (.int i) => some (some i)
  | some (.float q) => some (some q)
  | some _ => none

/-- `de_paths`: a list, or one comma-separated string. -/
def readPaths : Option Json → Option (List Text)
  | none | some .null => some []
  | some (.array items) => items.mapM Json.asStr
  | some (.string t) => some (((t.splitOn ',').map Text.trim).filter fun path => !path.isEmpty)
  | some _ => none

def verdictFields : List String :=
  ["verdict", "reason", "updated_summary", "updated_detail", "updated_confidence",
    "updated_severity", "holds_while", "depends_on"]

/-- How a struct is read: from an object by name, from an array by position. -/
def structField : Json → Option (String → Option Json)
  | .object fields => some fun name => (Json.object fields).get name
  | .array items =>
    if items.length ≤ verdictFields.length then
      some fun name => items[verdictFields.idxOf name]?
    else none
  | _ => none

def readVerdict (json : Json) : Option RecheckVerdict := do
  let field ← structField json
  pure {
    verdict := ← readText (field "verdict")
    reason := ← readText (field "reason")
    updatedSummary := ← readText (field "updated_summary")
    updatedDetail := ← readText (field "updated_detail")
    updatedConfidence := ← readF64 (field "updated_confidence")
    updatedSeverity := ← readText (field "updated_severity")
    holdsWhile := ← readText (field "holds_while")
    dependsOn := ← readPaths (field "depends_on") }

def RecheckVerdict.update (v : RecheckVerdict) : FindingAnalysisUpdate where
  summary := v.updatedSummary
  detail := v.updatedDetail
  confidence := v.updatedConfidence
  severity := v.updatedSeverity.bind Severity.parse

def confirmedUpdate (json : Json) : Option FindingAnalysisUpdate :=
  ((readVerdict json).filter fun v => v.verdict = some "confirmed".toList).map
    RecheckVerdict.update

end Hunter
