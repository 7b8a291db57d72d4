import Hunter.Text
set_option autoImplicit false

namespace Hunter

inductive FindingStatus
  | new | rechecking | queued | fixing | blocked | prOpen | merged | closed | superseded
  | rejected | wontfix | note
  deriving DecidableEq

namespace FindingStatus

def asStr : FindingStatus → Text
  | new => "new".toList
  | rechecking => "rechecking".toList
  | queued => "queued".toList
  | fixing => "fixing".toList
  | blocked => "blocked".toList
  | prOpen => "pr_open".toList
  | merged => "merged".toList
  | closed => "closed".toList
  | superseded => "superseded".toList
  | rejected => "rejected".toList
  | wontfix => "wontfix".toList
  | note => "note".toList

def isVerdict : FindingStatus → Bool
  | queued | rejected | wontfix | note => true
  | _ => false

def awaitsVerdict : FindingStatus → Bool
  | new | blocked | note | closed => true
  | _ => false

def reasonRequired : FindingStatus → Bool
  | rejected | wontfix => true
  | _ => false

def isSuppressed : FindingStatus → Bool
  | rejected | wontfix => true
  | _ => false

end FindingStatus

inductive BudgetOverride
  | once | exempt
  deriving DecidableEq

inductive ClosureClass
  | superseded | duplicate | obsolete | wrong | unwanted | abandoned
  deriving DecidableEq

def ClosureClass.status : ClosureClass → FindingStatus
  | superseded | duplicate | obsolete => .superseded
  | wrong => .rejected
  | unwanted => .wontfix
  | abandoned => .new

inductive JobState
  | running | done | failed | killed | suspended | denied
  deriving DecidableEq

def JobState.asStr : JobState → Text
  | running => "running".toList
  | done => "done".toList
  | failed => "failed".toList
  | killed => "killed".toList
  | suspended => "suspended".toList
  | denied => "denied".toList

inductive Severity
  | low | medium | high
  deriving DecidableEq

namespace Severity

def asStr : Severity → Text
  | low => "low".toList
  | medium => "medium".toList
  | high => "high".toList

def decode (t : Text) : Option Severity := [low, medium, high].find? fun sev => sev.asStr = t

def parse (t : Text) : Option Severity := decode (t.map Char.toLower)

theorem decode_asStr (sev : Severity) : decode sev.asStr = some sev := by
  cases sev <;> rfl

end Severity

inductive BugClass
  | boundary | errorPath | race | contractDrift | leak | logic
  deriving DecidableEq

namespace BugClass

def asStr : BugClass → Text
  | boundary => "boundary".toList
  | errorPath => "error-path".toList
  | race => "race".toList
  | contractDrift => "contract-drift".toList
  | leak => "leak".toList
  | logic => "logic".toList

def parse (t : Text) : Option BugClass :=
  [boundary, errorPath, race, contractDrift, leak, logic].find? fun cls => cls.asStr = t

theorem parse_asStr (cls : BugClass) : parse cls.asStr = some cls := by
  cases cls <;> rfl

end BugClass

inductive FindingType
  | bug | depUpdate | testGap | refactor | modernization | standards
  deriving DecidableEq

namespace FindingType

def asStr : FindingType → Text
  | bug => "bug".toList
  | depUpdate => "dep_update".toList
  | testGap => "test_gap".toList
  | refactor => "refactor".toList
  | modernization => "modernization".toList
  | standards => "standards".toList

def parse (t : Text) : Option FindingType :=
  [bug, depUpdate, testGap, refactor, modernization, standards].find? fun type => type.asStr = t

end FindingType

inductive RepoJobKind
  | hunt | testGap | depUpdate | refactor | modernization | standards
  deriving DecidableEq

def RepoJobKind.asStr : RepoJobKind → Text
  | hunt => "hunt".toList
  | testGap => "test_gap".toList
  | depUpdate => "dep_update".toList
  | refactor => "refactor".toList
  | modernization => "modernization".toList
  | standards => "standards".toList

inductive FindingJobKind
  | fix | engage | harvest | recheck
  deriving DecidableEq

def FindingJobKind.asStr : FindingJobKind → Text
  | fix => "fix".toList
  | engage => "engage".toList
  | harvest => "harvest".toList
  | recheck => "recheck".toList

inductive JobKind
  | repo (kind : RepoJobKind)
  | finding (kind : FindingJobKind)
  deriving DecidableEq

namespace JobKind

def isFinding : JobKind → Bool
  | .finding _ => true
  | .repo _ => false

def asStr : JobKind → Text
  | .finding kind => kind.asStr
  | .repo kind => kind.asStr

end JobKind

end Hunter
