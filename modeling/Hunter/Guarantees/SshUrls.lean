import Hunter.Forge.Urls

set_option autoImplicit false

namespace Hunter
open Checked Delimited

section
variable {a url host path : Text} {c : Char}

/-- A host that can stand before the colon of the scp-like form. -/
structure Bare (host : Text) : Prop where
  nonempty : host ≠ []
  noUser : '@' ∉ host
  noPort : ':' ∉ host
  noPath : '/' ∉ host

end

section
variable {host path : Text}

end

/-- A name, or an address literal in brackets. -/
inductive IsHost : Text → Prop
  | name {s : Text} (hne : s ≠ []) (h : ∀ c ∈ s, c ∉ [':', '/', '@', '[', ']']) : IsHost s
  | literal {s : Text} (h : ∀ c ∈ s, c ∉ ['/', '@', '[', ']']) : IsHost ('[' :: (s ++ [']']))

section
variable {url host path user port scheme rest : Text} {c : Char}

theorem IsHost.nonempty (h : IsHost host) : host ≠ [] := by
  cases h with
  | name hne h => exact hne
  | literal h => simp

end

section
variable {forge : ForgeName} {url host path : Text}

end

end Hunter
