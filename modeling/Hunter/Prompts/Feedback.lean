import Hunter.Forge.Feedback
import Mathlib.Data.Char
import Mathlib.Data.List.Lex
import Mathlib.Data.List.Sort
import Mathlib.Data.Prod.Lex

set_option autoImplicit false

namespace Hunter
open Checked Forge

structure FeedbackItem where
  ts : Text
  who : Text
  body : Text
  deriving DecidableEq

namespace FeedbackItem

def key (item : FeedbackItem) : Text ×ₗ Text ×ₗ Text := toLex (item.ts, toLex (item.who, item.body))

theorem key_injective : Function.Injective key := by
  rintro ⟨ts, who, body⟩ ⟨ts', who', body'⟩ h
  obtain ⟨rfl, rfl, rfl⟩ : ts = ts' ∧ who = who' ∧ body = body' := by simpa [key] using h
  rfl

/-- The order of the source's tuples: by the text of the timestamp first. -/
instance : LinearOrder FeedbackItem := LinearOrder.lift' key key_injective

def block (item : FeedbackItem) : Text :=
  "### ".toList ++ item.who ++ " at ".toList ++ item.ts ++ '\n' :: item.body

end FeedbackItem

def authorName (author : Option GhAuthor) : Text := (author.map GhAuthor.login).getD ['?']

def commentItem (c : GhComment) : FeedbackItem :=
  ⟨c.createdAt, authorName c.author, Text.trim c.body⟩

def reviewBody (r : GhReview) : Text :=
  if !r.state.isEmpty && r.state ≠ "COMMENTED".toList then
    Text.trim ("[review: ".toList ++ r.state ++ "] ".toList ++ Text.trim r.body)
  else Text.trim r.body

def reviewItem (r : GhReview) : Option FeedbackItem :=
  if (reviewBody r).isEmpty then none
  else some ⟨r.submittedAt, authorName r.author, reviewBody r⟩

def feedbackItems (pr : PrView) (voice : Voice) : List FeedbackItem :=
  (pr.comments.filter fun c => c.voice = voice).map commentItem ++
    (pr.reviews.filter fun r => r.voice = voice).filterMap reviewItem

def dropOldest (cap : Nat) : List Text → Nat → List Text × Nat
  | block :: next :: blocks, dropped =>
    if cap < ((block :: next :: blocks).map fun b => bytes b + 2).sum then
      dropOldest cap (next :: blocks) (dropped + 1)
    else (block :: next :: blocks, dropped)
  | blocks, dropped => (blocks, dropped)

def elidedNotice (dropped : Nat) : Text :=
  '(' :: (Text.nat dropped ++ " older item(s) elided)".toList)

def noFeedback : Voice → Text
  | .maintainer => "(no comments or reviews)".toList
  | .bot => "(no bot reviews)".toList

def feedbackBlocks (pr : PrView) (voice : Voice) (cap : Nat) : Text :=
  let items := (feedbackItems pr voice).insertionSort (· ≤ ·)
  let (blocks, dropped) := dropOldest cap (items.map FeedbackItem.block) 0
  let blocks := if 0 < dropped then elidedNotice dropped :: blocks else blocks
  if blocks.isEmpty then noFeedback voice else ['\n', '\n'].intercalate blocks

end Hunter
