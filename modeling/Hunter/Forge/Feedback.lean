import Hunter.Forge.Urls
import Hunter.Memo
import Hunter.Scheduler.Timestamps
import Hunter.Store.Tables

set_option autoImplicit false

namespace Hunter
open Delimited Checked

namespace Forge

inductive Mergeable
  | unknown | mergeable | conflicting
  deriving DecidableEq

inductive ReviewDecision
  | none | approved | changesRequested
  deriving DecidableEq

inductive Voice
  | maintainer | bot
  deriving DecidableEq

structure GhAuthor where
  login : Text
  deriving DecidableEq

structure GhComment where
  id : Text
  author : Option GhAuthor
  body : Text
  createdAt : Text
  voice : Voice := .maintainer
  deriving DecidableEq

structure GhReview where
  id : Text
  author : Option GhAuthor
  body : Text
  submittedAt : Text
  state : Text
  voice : Voice := .maintainer
  deriving DecidableEq

structure GhCheckRun where
  name : Option Text
  deriving DecidableEq

structure PrView where
  state : PrPhase := .opened
  mergeable : Mergeable := .unknown
  reviewDecision : ReviewDecision := .none
  headRef : Text := []
  headSha : Text := []
  updatedAt : Text := []
  title : Text := []
  body : Text := []
  statusCheckRollup : List GhCheckRun := []
  comments : List GhComment := []
  reviews : List GhReview := []
  deriving DecidableEq

def normalizeLogin (login : Text) : Text := stripEnd "[bot]".toList (asciiLower (Text.trim login))

/-- The logins of `feedback.bots`, normalised. -/
structure ReviewBots where
  logins : List Text

def ReviewBots.new (logins : List Text) : ReviewBots := ⟨logins.map normalizeLogin⟩

def ReviewBots.contains (bots : ReviewBots) (login : Text) : Bool :=
  bots.logins.contains (normalizeLogin login)

/-- What the forge answers: whether an item's author is a bot, and whether a login can push. -/
structure Lookups (ε : Type) where
  isBot : Text → Text → Except ε Bool
  canPush : Text → Except ε Bool

def authorLogin (author : Option GhAuthor) : Option Text :=
  (author.map GhAuthor.login).filter fun login => !login.isEmpty

section
variable {ε : Type} (bots : ReviewBots) (look : Lookups ε)

def confirmedBot (id login : Text) : Except ε Bool :=
  if bots.contains login then look.isBot id login else .ok false

/-- `voice_of`, its `push_access` being the memo. -/
def voiceOf (id : Text) (author : Option GhAuthor) : Memo.Asking Text Bool ε (Option Voice) := do
  match authorLogin author with
  | none => pure none
  | some login =>
    if ← liftExcept (confirmedBot bots look id login) then pure (some .bot)
    else
      let maintainer ← Memo.query look.canPush login
      pure (if maintainer then some .maintainer else none)

/-- What an error leaves in the view is dropped by the callers. -/
def screenFeedback (pr : PrView) : Memo.Asking Text Bool ε PrView := do
  let comments ← pr.comments.filterMapM fun c => do
    let voice ← voiceOf bots look c.id c.author
    pure (voice.map fun voice => { c with voice })
  let reviews ← pr.reviews.filterMapM fun r => do
    let voice ← voiceOf bots look r.id r.author
    pure (voice.map fun voice => { r with voice })
  pure { pr with comments, reviews }

def screened (pr : PrView) : Except ε PrView := (Memo.run (screenFeedback bots look pr) {}).1

def looksUp (pr : PrView) : List Text := (Memo.run (screenFeedback bots look pr) {}).2.asked

end

/-- `latest_activity_ms`, read off a screened view. -/
def latestActivityMs (pr : PrView) : Result Int := do
  let comments ← pr.comments.mapM fun c => isoMs c.createdAt
  let reviews ← pr.reviews.mapM fun r => isoMs r.submittedAt
  pure ((comments ++ reviews).max?.getD 0)

end Forge

end Hunter
