import Hunter.Checked
import Hunter.Text

set_option autoImplicit false

namespace Hunter
open Checked Delimited

inductive ForgeName where
  | github
  | gitlab
deriving Repr, DecidableEq

/-- `to_ascii_lowercase`. -/
def asciiLower (s : Text) : Text := s.map Char.toLower

def stripScheme (url scheme : Text) : Option Text :=
  let head := url.take scheme.length
  let rest := url.drop scheme.length
  if asciiLower head = asciiLower scheme then stripPrefix "://".toList rest else none

def stripAnyScheme (url : Text) : Option Text :=
  ["https".toList, "http".toList, "ssh".toList].findSome? fun s => stripScheme url s

/-- The authority of a scheme URL, or what precedes the colon of the scp-like form. -/
def authority (url : Text) : Option Text :=
  match stripAnyScheme url with
  | some rest => some (rest.takeWhile (· ≠ '/'))
  | none => ((splitOnce [':'] url).map fun p => p.1).filter fun a => !a.contains '/'

def withoutUser (authority : Text) : Text :=
  match rsplitOnce ['@'] authority with
  | some (_, host) => host
  | none => authority

def withoutPort (host : Text) : Text :=
  match splitOnce [':'] host with
  | some (host, _) => host
  | none => host

/-- The host alone; only scheme URLs carry a port. -/
def urlHost (url : Text) : Option Text :=
  match authority url with
  | none => none
  | some authority =>
    let host := withoutUser authority
    let host := if (stripAnyScheme url).isSome then withoutPort host else host
    if host.isEmpty then none else some host

def remotePath (url : Text) : Option Text :=
  match stripAnyScheme url with
  | some rest => (splitOnce ['/'] rest).map fun p => p.2
  | none => ((splitOnce [':'] url).filter fun p => !p.1.contains '/').map fun p => p.2

def urlHostPath (url : Text) : Option (Text × Text) :=
  match urlHost url, remotePath url with
  | some host, some path => if path.isEmpty then none else some (host, path)
  | _, _ => none

/-- `github` as a label of the host, or a host under `ghe.com`. -/
def isGithubHost (host : Text) : Bool :=
  let labels := (asciiLower host).splitOn '.'
  labels.contains "github".toList || decide (["ghe".toList, "com".toList] <:+ labels)

/-- Trailing slashes and `.git` suffixes are taken off. -/
def trimPath (path : Text) : Text := trimEnd ".git".toList (path.rdropWhile (· = '/'))

def githubOwnerRepo (url : Text) : Option (Text × Text) :=
  match urlHostPath url with
  | none => none
  | some (host, path) =>
    if !isGithubHost host then none
    else
      match splitOnce ['/'] (trimPath path) with
      | none => none
      | some (owner, repo) =>
        if owner.isEmpty || repo.isEmpty then none
        else if asciiLower host = "github.com".toList then some (owner, repo)
        else some (asciiLower host ++ ['/'] ++ owner, repo)

def gitlabHostPath (url : Text) : Option (Text × Text) :=
  match urlHostPath url with
  | none => none
  | some (host, path) =>
    let path := trimPath path
    if path.isEmpty then none else some (host, path)

def gitlabOwnerRepo (url : Text) : Option (Text × Text) :=
  match gitlabHostPath url with
  | none => none
  | some (_, path) =>
    match rsplitOnce ['/'] path with
    | none => none
    | some (pre, last) => if pre.isEmpty || last.isEmpty then none else some (pre, last)

def ForgeName.ownerRepo : ForgeName → Text → Option (Text × Text)
  | .github => githubOwnerRepo
  | .gitlab => gitlabOwnerRepo

def ForgeName.marker : ForgeName → Text
  | .github => "/pull/".toList
  | .gitlab => "/-/merge_requests/".toList

/-- The number before the first `/`, `?` or `#`. -/
def leadingNumber (s : Text) : Option Int :=
  i64.parse (s.takeWhile fun c => !(['/', '?', '#'].contains c))

def githubParsePrUrl (url : Text) : Option (Text × Int) :=
  match urlHostPath url with
  | none => none
  | some (host, path) =>
    if (stripScheme url "https".toList).isNone || !isGithubHost host then none
    else
      match rsplitOnce ForgeName.github.marker path with
      | none => none
      | some (slug, numPart) =>
        match leadingNumber numPart with
        | none => none
        | some num =>
          if asciiLower host = "github.com".toList then some (slug, num)
          else some (asciiLower host ++ ['/'] ++ slug, num)

def gitlabParsePrUrl (url : Text) : Option (Text × Int) :=
  match (stripScheme url "https".toList).bind fun rest => splitOnce ['/'] rest with
  | none => none
  | some (_, afterHost) =>
    match rsplitOnce ForgeName.gitlab.marker afterHost with
    | none => none
    | some (slug, numPart) =>
      match leadingNumber numPart with
      | none => none
      | some num => some (slug, num)

def ForgeName.parsePrUrl : ForgeName → Text → Option (Text × Int)
  | .github => githubParsePrUrl
  | .gitlab => gitlabParsePrUrl

/-- A word up to the digits behind the first occurrence of the marker. -/
def urlUpTo (marker word : Text) : Option Text :=
  match splitOnce marker word with
  | none => none
  | some (before, after) =>
    let digits := after.takeWhile Char.isDigit
    if digits.isEmpty then none else some (before ++ marker ++ digits)

def urlInWord (word : Text) : Option Text :=
  if "https://".toList <+: word then
    [ForgeName.github, .gitlab].findSome? fun forge => urlUpTo forge.marker word
  else none

def extractPrUrl (text : Text) : Option Text := text.words.findSome? urlInWord

end Hunter
