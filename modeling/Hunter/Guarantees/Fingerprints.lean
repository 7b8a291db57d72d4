import Hunter.Guarantees.RenovateOutput
import Hunter.Joined
import Mathlib.Data.List.Sort

set_option autoImplicit false

namespace Hunter
open Joined

/-- How an occurrence is written among several packages, and when there is one. -/
def spelling (several : Bool) (x : Text × Text) : Text := if several then entry '=' x else x.2

@[simp] theorem spelling_true : spelling true = entry '=' := rfl

@[simp] theorem spelling_false : spelling false = Prod.snd := rfl

section
variable {members members' : List Member} {repoName key : Text} {several several' : Bool}

def entries (members : List Member) : List Text :=
  standing (!decide ((distinct (members.map Member.package)).length = 1)) members

end

def reported (key package current : Text) : Json :=
  .object [("depName".toList, .string package), ("currentVersion".toList, .string current),
    ("updates".toList, .array [.object
      [("branchName".toList, .string ("renovate/".toList ++ key))]])]

section
variable {repoName key key' s : Text}

end

end Hunter
