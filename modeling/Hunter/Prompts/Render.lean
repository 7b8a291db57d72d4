import Hunter.Delimited
import Hunter.Text

set_option autoImplicit false

namespace Hunter
open Delimited

/-- `HashMap<&str, String>`. -/
abbrev Slots := Text → Option Text

def openBraces : Text := ['{', '{']

def closeBraces : Text := ['}', '}']

def unterminated (rest : Text) : Text :=
  "unterminated placeholder in playbook: ".toList ++ rest.take 60

def unfilled (key : Text) : Text :=
  "unfilled placeholder in playbook: ".toList ++ openBraces ++ key ++ closeBraces

theorem rest_shorter {rest literal after key rest' : Text}
    (hopen : splitOnce openBraces rest = some (literal, after))
    (hclose : splitOnce closeBraces after = some (key, rest')) : rest'.length < rest.length := by
  have hlen := congrArg List.length (eq_of_splitOnce hopen)
  have hlen' := congrArg List.length (eq_of_splitOnce hclose)
  simp only [List.length_append, openBraces, closeBraces, List.length_cons, List.length_nil]
    at hlen hlen'
  omega

/-- The scanning loop, `out` being what is written so far. -/
def renderLoop (slots : Slots) (out rest : Text) : Except Text Text :=
  match _hopen : splitOnce openBraces rest with
  | none => .ok (out ++ rest)
  | some (literal, after) =>
    match _hclose : splitOnce closeBraces after with
    | none => .error (unterminated (openBraces ++ after))
    | some (key, rest') =>
      match slots key with
      | none => .error (unfilled key)
      | some value => renderLoop slots (out ++ literal ++ value) rest'
termination_by rest.length
decreasing_by exact rest_shorter _hopen _hclose

def render (template : Text) (slots : Slots) : Except Text Text := renderLoop slots [] template

end Hunter
