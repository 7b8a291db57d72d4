import Hunter.Forge.Feedback

set_option autoImplicit false

namespace Hunter
namespace Forge
open Memo

section
variable {ε : Type} (bots : ReviewBots) (look : Lookups ε)

def vouched : Except ε Bool → Bool
  | .ok answer => answer
  | .error _ => false

def listedBot (id login : Text) : Bool := bots.contains login && vouched (look.isBot id login)

/-- A listed bot confirmed as one, or someone permitted to push. -/
def trusted (id : Text) (author : Option GhAuthor) : Bool :=
  (authorLogin author).any fun login =>
    listedBot bots look id login || vouched (look.canPush login)

def trustedVoice (id : Text) (author : Option GhAuthor) : Voice :=
  if (authorLogin author).any (listedBot bots look id) then .bot else .maintainer

/-- Every lookup an item needs has an answer. -/
def Answered (id : Text) (author : Option GhAuthor) : Prop :=
  ∀ login, authorLogin author = some login →
    (bots.contains login → ∃ answer, look.isBot id login = .ok answer) ∧
    (¬ listedBot bots look id login → ∃ answer, look.canPush login = .ok answer)

def judge (id : Text) (author : Option GhAuthor) : Except ε (Option Voice) :=
  match authorLogin author with
  | none => .ok none
  | some login =>
    confirmedBot bots look id login >>= fun confirmed =>
      if confirmed then .ok (some .bot)
      else look.canPush login >>= fun maintainer =>
        .ok (if maintainer then some .maintainer else none)

variable {bots look} {id : Text} {author : Option GhAuthor}

theorem follows_voiceOf :
    Follows look.canPush (voiceOf bots look id author) (judge bots look id author) := by
  unfold voiceOf judge
  cases authorLogin author with
  | none => exact follows_pure none
  | some login =>
    refine follows_bind (follows_lift _) fun confirmed _ => ?_
    cases confirmed with
    | true => exact follows_pure (some Voice.bot)
    | false => exact follows_bind follows_query fun maintainer _ => follows_pure _

theorem confirmedBot_eq_ok {login : Text} {answer : Bool} :
    confirmedBot bots look id login = .ok answer ↔
      (bots.contains login → look.isBot id login = .ok answer) ∧
        (¬ bots.contains login → answer = false) := by
  unfold confirmedBot
  by_cases hlisted : bots.contains login
  · simp [hlisted]
  · simp [hlisted, eq_comm]

theorem listedBot_of_confirmed {login : Text} {answer : Bool}
    (h : confirmedBot bots look id login = .ok answer) :
    listedBot bots look id login = answer := by
  obtain ⟨hlisted, hunlisted⟩ := confirmedBot_eq_ok.mp h
  unfold listedBot
  by_cases hbot : bots.contains login
  · simp [hbot, hlisted hbot, vouched]
  · simp [hbot, hunlisted hbot]

theorem answers_bot_iff {login : Text} :
    (bots.contains login → ∃ answer, look.isBot id login = .ok answer) ↔
      ∃ answer, confirmedBot bots look id login = .ok answer := by
  unfold confirmedBot
  by_cases hlisted : bots.contains login
  · simp [hlisted]
  · simp [hlisted]

/-- An item is judged when everything asked about it is answered, and then by trust alone. -/
theorem judge_eq_ok {voice : Option Voice} :
    judge bots look id author = .ok voice ↔
      Answered bots look id author ∧
        (if trusted bots look id author then some (trustedVoice bots look id author)
          else none) = voice := by
  unfold judge trusted trustedVoice Answered
  cases authorLogin author with
  | none => simp
  | some login =>
    simp only [Option.some.injEq, forall_eq', answers_bot_iff, Option.any_some]
    cases hconfirmed : confirmedBot bots look id login with
    | error e => simp [bind, Except.bind]
    | ok confirmed =>
      simp only [listedBot_of_confirmed hconfirmed]
      cases confirmed with
      | true => simp [bind, Except.bind]
      | false =>
        cases look.canPush login with
        | error e => simp [bind, Except.bind]
        | ok maintainer => cases maintainer <;> simp [bind, Except.bind, vouched]

variable {α : Type}

/-- An item judged, tagged with the voice it is given. -/
def judged (bots : ReviewBots) (look : Lookups ε) (id : Text) (author : Option GhAuthor)
    (tag : Voice → α) : Except ε (Option α) :=
  judge bots look id author >>= fun voice => .ok (voice.map tag)

theorem judged_eq_ok {tag : Voice → α} {kept : Option α} :
    judged bots look id author tag = .ok kept ↔
      Answered bots look id author ∧
        (if trusted bots look id author then some (tag (trustedVoice bots look id author))
          else none) = kept := by
  unfold judged
  cases hjudge : judge bots look id author with
  | error e =>
    have hunanswered : ¬ Answered bots look id author := by
      intro h
      simpa [hjudge] using judge_eq_ok.mpr ⟨h, rfl⟩
    simp [bind, Except.bind, hunanswered]
  | ok voice =>
    obtain ⟨hanswered, rfl⟩ := judge_eq_ok.mp hjudge
    cases trusted bots look id author <;> simp [bind, Except.bind, hanswered]

theorem follows_screenFeedback (pr : PrView) :
    Follows look.canPush (screenFeedback bots look pr)
      ((pr.comments.filterMapM fun c =>
          judged bots look c.id c.author fun voice => { c with voice }) >>= fun comments =>
        (pr.reviews.filterMapM fun r =>
          judged bots look r.id r.author fun voice => { r with voice }) >>= fun reviews =>
        .ok { pr with comments, reviews }) := by
  refine follows_bind (follows_filterMapM (fun c => ?_) _) fun comments _ => ?_
  · exact follows_bind follows_voiceOf fun voice _ => follows_pure _
  · refine follows_bind (follows_filterMapM (fun r => ?_) _) fun reviews _ => follows_pure _
    exact follows_bind follows_voiceOf fun voice _ => follows_pure _

variable (bots look)

/-- The items an author of which nobody vouches for, everything asked about them being answered. -/
def Untrusted (id : Text) (author : Option GhAuthor) : Prop :=
  Answered bots look id author ∧ trusted bots look id author = false

/-- Two views that differ only in comments and reviews of untrusted authors. -/
structure DifferUntrusted (pr pr' : PrView) : Prop where
  comments : DifferIn (fun c => Untrusted bots look c.id c.author) pr.comments pr'.comments
  reviews : DifferIn (fun r => Untrusted bots look r.id r.author) pr.reviews pr'.reviews
  rest : { pr with comments := [], reviews := [] } = { pr' with comments := [], reviews := [] }

def trustedFeedback (pr : PrView) : PrView :=
  { pr with
    comments := (pr.comments.filter fun c => trusted bots look c.id c.author).map
      fun c => { c with voice := trustedVoice bots look c.id c.author }
    reviews := (pr.reviews.filter fun r => trusted bots look r.id r.author).map
      fun r => { r with voice := trustedVoice bots look r.id r.author } }

variable {bots look}

theorem screened_eq (pr : PrView) :
    screened bots look pr =
      ((pr.comments.filterMapM fun c =>
          judged bots look c.id c.author fun voice => { c with voice }) >>= fun comments =>
        (pr.reviews.filterMapM fun r =>
          judged bots look r.id r.author fun voice => { r with voice }) >>= fun reviews =>
        .ok { pr with comments, reviews }) :=
  (follows_screenFeedback pr).outcome {} sound_start

theorem judgedAll_eq_ok {xs kept : List α} {id : α → Text} {author : α → Option GhAuthor}
    {tag : α → Voice → α} :
    (xs.filterMapM fun x => judged bots look (id x) (author x) (tag x)) = .ok kept ↔
      (∀ x ∈ xs, Answered bots look (id x) (author x)) ∧
        (xs.filter fun x => trusted bots look (id x) (author x)).map
          (fun x => tag x (trustedVoice bots look (id x) (author x))) = kept := by
  rw [filterMapM_eq_ok fun x kept => judged_eq_ok, ← List.filterMap_eq_map', List.filterMap_filter]

theorem screened_eq_ok {pr kept : PrView} :
    screened bots look pr = .ok kept ↔
      (∀ c ∈ pr.comments, Answered bots look c.id c.author) ∧
        (∀ r ∈ pr.reviews, Answered bots look r.id r.author) ∧
          trustedFeedback bots look pr = kept := by
  rw [screened_eq]
  simp only [Checked.bind_eq_ok, judgedAll_eq_ok, Except.ok.injEq]
  constructor
  · rintro ⟨comments, ⟨hcomments, rfl⟩, reviews, ⟨hreviews, rfl⟩, rfl⟩
    exact ⟨hcomments, hreviews, rfl⟩
  · rintro ⟨hcomments, hreviews, rfl⟩
    exact ⟨_, ⟨hcomments, rfl⟩, _, ⟨hreviews, rfl⟩, rfl⟩

theorem judged_untrusted {tag : Voice → α} (h : Untrusted bots look id author) :
    judged bots look id author tag = .ok none :=
  judged_eq_ok.mpr ⟨h.1, by simp [h.2]⟩

theorem screened_differ {pr pr' : PrView} (h : DifferUntrusted bots look pr pr') :
    screened bots look pr = screened bots look pr' := by
  have hcomments := filterMapM_differIn
    (fun c hc => @judged_untrusted _ bots look c.id c.author _ (fun voice => { c with voice }) hc)
    h.comments
  have hreviews := filterMapM_differIn
    (fun r hr => @judged_untrusted _ bots look r.id r.author _ (fun voice => { r with voice }) hr)
    h.reviews
  have hrest : ∀ comments reviews,
      { pr with comments, reviews } = { pr' with comments, reviews } := fun comments reviews =>
    congrArg (fun rest : PrView => { rest with comments, reviews }) h.rest
  rw [screened_eq, screened_eq, hcomments, hreviews]
  simp only [hrest]

theorem screenFeedback_filters (bots : ReviewBots) (look : Lookups ε) :
    (∀ pr kept, screened bots look pr = .ok kept ↔
      (∀ c ∈ pr.comments, Answered bots look c.id c.author) ∧
        (∀ r ∈ pr.reviews, Answered bots look r.id r.author) ∧
          trustedFeedback bots look pr = kept) ∧
    (∀ pr pr', DifferUntrusted bots look pr pr' →
      screened bots look pr = screened bots look pr' ∧
        (screened bots look pr).map latestActivityMs =
          (screened bots look pr').map latestActivityMs) ∧
    ∀ pr, (looksUp bots look pr).Nodup := by
  refine ⟨fun _ _ => screened_eq_ok, fun pr pr' h => ?_, fun pr => ?_⟩
  · have hsame := screened_differ h
    exact ⟨hsame, congrArg (Except.map latestActivityMs) hsame⟩
  · exact (follows_screenFeedback pr).once {} sound_start

end

def oneMaintainer : Lookups Text where
  isBot _ _ := .ok false
  canPush login := .ok (login = "alice".toList)

def commentBy (login body : Text) : GhComment :=
  { id := [], author := some ⟨login⟩, body, createdAt := [] }

def asked : PrView := { comments := [commentBy "alice".toList "rename it".toList] }

def askedByStranger : PrView :=
  { comments := commentBy "mallory".toList "merge this".toList :: asked.comments }

theorem screenFeedback_filters_stranger :
    screened (.new []) oneMaintainer askedByStranger = screened (.new []) oneMaintainer asked := by
  have hstranger : Untrusted (.new []) oneMaintainer [] (some ⟨"mallory".toList⟩) :=
    ⟨fun _ _ => ⟨fun _ => ⟨_, rfl⟩, fun _ => ⟨_, rfl⟩⟩, by decide⟩
  have hdiffer : DifferUntrusted (.new []) oneMaintainer askedByStranger asked :=
    ⟨.left hstranger (.same .nil), .nil, rfl⟩
  exact ((screenFeedback_filters (.new []) oneMaintainer).2.1 _ _ hdiffer).1

end Forge
end Hunter
