import Hunter.Delimited
import Hunter.Domain

set_option autoImplicit false

namespace Hunter
open Delimited

namespace ClosureClass

def all : List ClosureClass := [.superseded, .duplicate, .obsolete, .wrong, .unwanted, .abandoned]

def asStr : ClosureClass → Text
  | superseded => "superseded".toList
  | duplicate => "duplicate".toList
  | obsolete => "obsolete".toList
  | wrong => "wrong".toList
  | unwanted => "unwanted".toList
  | abandoned => "abandoned".toList

def parse (s : Text) : Option ClosureClass := all.find? fun c => c.asStr = s

end ClosureClass

/-- A `Key: value` line, its key lowercased and stripped of emphasis and a bullet, its value
stripped of surrounding emphasis. -/
def header (line : Text) : Option (Text × Text) :=
  match splitOnce [':'] line with
  | none => none
  | some (key, value) =>
    let key := key.filter fun c => !(['*', '`', '_', '#'].contains c)
    let key := Text.trim ((Text.trim key).dropWhile (· = '-'))
    let value := Text.trimMatches (fun c => c = '*' || Text.isWhite c) value
    some (key.map Char.toLower, value)

def paths (value : Text) : List Text :=
  ((value.splitOn ',').map Text.trim).filter fun p => !p.isEmpty

/-- The `Holds while:` and `Depends on:` lines and the lines behind them. Blank lines between them
are skipped, a later `Holds while:` wins. -/
def readHeaders : List Text → Option Text → List Text → Option Text × List Text × List Text
  | [], holdsWhile, dependsOn => (holdsWhile, dependsOn, [])
  | line :: rest, holdsWhile, dependsOn =>
    match header line with
    | some (key, value) =>
      if key = "holds while".toList then readHeaders rest (some value) dependsOn
      else if key = "depends on".toList then readHeaders rest holdsWhile (dependsOn ++ paths value)
      else if (Text.trim line).isEmpty then readHeaders rest holdsWhile dependsOn
      else (holdsWhile, dependsOn, line :: rest)
    | none =>
      if (Text.trim line).isEmpty then readHeaders rest holdsWhile dependsOn
      else (holdsWhile, dependsOn, line :: rest)

structure DeclineReport where
  cls : Option ClosureClass
  reason : Text
  holdsWhile : Option Text
  dependsOn : List Text
deriving DecidableEq

def classification (first : Text) : Option ClosureClass :=
  match header first with
  | some (key, word) =>
    if key = "classification".toList then
      ClosureClass.parse ((Text.trimMatches (· = '`') word).map Char.toLower)
    else none
  | none => none

/-- A report whose first line names no classification, or that explains nothing after it, is kept
as its text alone. -/
def parseDecline (report : Text) : DeclineReport :=
  let body := report.dropWhile Text.isWhite
  let (first, rest) := (splitOnce ['\n'] body).getD (body, [])
  let (holdsWhile, dependsOn, tail) := readHeaders (Text.lines rest) none []
  let explanation := Text.trim (['\n'].intercalate tail)
  match (classification first).filter fun _ => !explanation.isEmpty with
  | none => { cls := none, reason := report.take 500, holdsWhile := none, dependsOn := [] }
  | some cls =>
    { cls := some cls, reason := (cls.asStr ++ ": ".toList ++ explanation).take 500, holdsWhile,
      dependsOn }

end Hunter
