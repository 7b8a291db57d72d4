import Hunter.Checked
import Hunter.Text

set_option autoImplicit false

namespace Hunter
open Checked

def prDiffCapChars : Nat := 40000

/-- `char_indices().nth(n)`: the byte offset of a character. -/
def charOffset (s : Text) (n : Nat) : Option Nat :=
  if n < s.length then some (bytes (s.take n)) else none

def truncationMarker (rest : Nat) : Text :=
  "\n[diff truncated here: ".toList ++ Text.nat rest ++ " more characters not shown]".toList

def cappedDiff (diff : Text) : Result Text :=
  if (Text.trim diff).isEmpty then pure "(empty diff)".toList
  else
    match charOffset diff prDiffCapChars with
    | none => pure diff
    | some cut => do
      let rest ← sliceFrom diff cut
      let shown ← sliceTo diff cut
      pure (shown ++ truncationMarker rest.length)

def longestBackticks (body : Text) : Nat :=
  (((body.splitOnP fun c => c != '\x60').map bytes).max?).getD 0

def fenceOf (body : Text) : Text := List.replicate (max (longestBackticks body) 2 + 1) '\x60'

def fencedDiff (diff : Text) : Result Text := do
  let body ← cappedDiff diff
  let fence := fenceOf body
  let newline := if ['\n'] <:+ body then [] else ['\n']
  pure (fence ++ "diff\n".toList ++ body ++ newline ++ fence)

end Hunter
