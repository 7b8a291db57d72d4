import Hunter.Conformance.Rules
set_option autoImplicit false

namespace Hunter
open Effect

variable {α β : Type}

def StoreCall.isQuiet : {β : Type} → StoreCall β → Bool
  | _, .getFinding _ | _, .getPrState _ | _, .verdictAnchor _ | _, .findingsWithStatus _
  | _, .listPendingHarvest | _, .listResumableJobs | _, .listRunningJobs | _, .getRepoById _
  | _, .resumeOriginJob _ | _, .resumeChainStats _ | _, .ancestorTokens _ | _, .pinnedSha _
  | _, .jobBlocker _ | _, .jobFullHistory _ | _, .chainLive _
  | _, .setFixAttempts _ _ _ | _, .setRecheckAttempts _ _ _
  | _, .setHarvestAttempts _ _ _ | _, .markPrEngaged _ _ _ _ _ | _, .setAttentionAside _ _
  | _, .setPrNumber _ _ | _, .logEvent _
  | _, .supersedeUnproposedDepUpdates _ _ _ | _, .deletedRepoIds
  | _, .forgetDeletedRepo _ => true
  | _, _ => false

def StoreCall.isTame : {β : Type} → StoreCall β → Bool
  | _, .retireStrandedSuspensions | _, .updateFindingAnalysis _ _ | _, .markPrHarvested _ _
  | _, .upsertFinding _ _ _ | _, .refreshDepUpdate _ _ | _, .reconfirmAnchor _ _ _ => true
  | _, c => c.isQuiet

def Query.isQuiet : {β : Type} → Query β → Bool
  | _, .createPr _ _ _ | _, .viewPrSync _ _ | _, .huntSummary _ _ _ => false
  | _, _ => true

def TreeCall.isQuiet : {β : Type} → TreeCall β → Bool
  | _, .create _ _ | _, .diffNames _ _ _ | _, .prompt _ (.hunt _) | _, .runWorker _ _ _
  | _, .findingsFile _ => false
  | _, _ => true

def StoreCall.setsMerged : {β : Type} → StoreCall β → Bool
  | _, .setFindingStatus _ status => status = .merged
  | _, _ => false

theorem not_learns_merging {a : Memory} {c : StoreCall β} {b : Except Text β} {f : Nat}
    (h : c.setsMerged = false) : ¬ (Call.store c).learns a b (.merging f) := by
  intro hf
  cases b with
  | error e => exact hf
  | ok b =>
    change c.learns a b (.merging f) at hf
    cases c with
    | findingsWithStatus =>
      obtain ⟨row, -, hf⟩ := hf
      cases tells_listed hf
    | listResumableJobs =>
      obtain ⟨row, -, hf⟩ := hf
      cases offerTells_listed hf
    | _ => simp_all [StoreCall.learns, StoreCall.setsMerged]

def StoreCall.marksMerged : {β : Type} → StoreCall β → Bool
  | _, .markPrMerged _ _ _ => true
  | _, _ => false

theorem grows_error {a : Memory} {c : StoreCall β} {e : Text} (h : c.marksMerged = false) :
    Grows a (a.next (.store c) (.error e)) := by
  apply keeps_next
  · cases c <;> first | exact fun _ hx => hx | cases h
  · exact fun _ hf => hf

theorem setsMerged_of_isQuiet {c : StoreCall β} (h : c.isQuiet = true) :
    c.setsMerged = false := by
  cases c <;> first | rfl | cases h

theorem quietCall_store {c : StoreCall β} (h : c.isQuiet = true) :
    QuietCall protocol Grows (.store c) := by
  intro a
  constructor
  · cases c <;> trivial
  · intro b _
    apply keeps_next
    · cases b <;> cases c <;> first | exact fun _ hx => hx | cases h
    · exact fun f => not_learns_merging (setsMerged_of_isQuiet h)

def StoreCall.handsOver : {β : Type} → StoreCall β → Bool
  | _, .handOverQueuedDepUpdates _ _ => true
  | _, _ => false

theorem not_forgets_oneShot {c : StoreCall β} {b : Except Text β} {f : Nat}
    (h : c.handsOver = false) : ¬ (Call.store c).forgets b (.oneShot f) := by
  intro hf
  cases b with
  | error e =>
    change c.forgetsFailed (.oneShot f) at hf
    cases c <;> simp [StoreCall.forgetsFailed] at hf
  | ok b =>
    change c.forgets b (.oneShot f) at hf
    cases c <;>
      simp_all [StoreCall.forgets, StoreCall.handsOver, Fact.onCreate, Fact.onSpend, Fact.onEnd,
        Fact.isOffer, Fact.onHold, Fact.onStatus, Fact.onAnchor, Fact.isHeld, Fact.onBranch,
        Fact.onWatermark, Fact.isAsked, Fact.isPinned, Fact.isMarked, Fact.isFiled]

theorem settles_next {a : Memory} {c : StoreCall β} {b : Except Text β}
    (hset : c.setsMerged = false) (hover : c.handsOver = false) :
    Settles a (a.next (.store c) b) := by
  refine keeps_next (fun x hx => ?_) fun _ => not_learns_merging hset
  cases x with
  | oneShot f => exact absurd hx (not_forgets_oneShot hover)
  | _ => rfl

theorem quietCall_ask {q : Query β} (h : q.isQuiet = true) :
    QuietCall protocol Grows (.ask q) := by
  intro a
  constructor
  · cases q <;> trivial
  · intro b _
    show Grows a (a.next (.ask q) b)
    rw [next_ask]
    exact Keeps.refl _ a

theorem not_learns_merging_tree {a : Memory} {c : TreeCall β} {b : β} {f : Nat} :
    ¬ (Call.tree c).learns a b (.merging f) := by
  intro h
  cases TreeCall.learns_told h

theorem quietCall_tree {c : TreeCall β} (h : c.isQuiet = true) :
    QuietCall protocol Grows (.tree c) := by
  intro a
  constructor
  · cases c with
    | prompt p brief => cases brief <;> trivial
    | _ => trivial
  · intro b _
    apply keeps_next
    · cases c <;> first | exact fun _ hx => hx | cases h
    · exact fun _ => not_learns_merging_tree

abbrev Peaceful (p : Act α) : Prop := Quiet protocol Grows p

/-- Needs no fact, and undoes none but those of kind `drop`. -/
abbrev Undoes (drop : Fact → Prop) (p : Act α) : Prop :=
  ∀ a, Follows protocol a p fun _ a' => Keeps drop a a'

abbrev Tame (p : Act α) : Prop := Undoes (fun x => x.isOneShot = false) p

theorem Peaceful.follows {a : Memory} {p : Act α} (h : Peaceful p) :
    Follows protocol a p fun _ a' => Grows a a' :=
  Quiet.follows (Keeps.refl _) (fun _ _ _ => Keeps.trans) h

theorem Peaceful.undoes {drop : Fact → Prop} {p : Act α} (h : Peaceful p) : Undoes drop p :=
  fun _ => h.follows.mono fun _ _ h => h.grows

theorem Peaceful.tame {p : Act α} (h : Peaceful p) : Tame p := h.undoes

theorem Tame.follows {a : Memory} {p : Act α} (h : Tame p) :
    Follows protocol a p fun _ a' => Settles a a' := h a

section
variable {drop : Fact → Prop}

theorem Undoes.tame {p : Act α} (h : Undoes drop p) (hdrop : ∀ f, ¬ drop (.oneShot f)) :
    Tame p :=
  fun a => (h a).mono fun _ _ h => h.settles hdrop

theorem undoes_done (x : α) : Undoes drop (.done x) := fun a => Keeps.refl _ a

theorem undoes_bind {p : Act α} {k : α → Act β} (hp : Undoes drop p)
    (hk : ∀ x, Undoes drop (k x)) : Undoes drop (p >>= k) := by
  intro a
  refine follows_bind.2 ((hp a).mono fun r a1 h1 => ?_)
  cases r with
  | ok x => exact (hk x a1).mono fun _ _ h2 => h1.trans h2
  | error e => exact h1

theorem undoes_attempt {p : Act α} (hp : Undoes drop p) :
    Undoes drop (p.attempt : Act (Except Text α)) :=
  fun a => follows_attempt.2 (hp a)

theorem undoes_onlyIf {b : Bool} {p : Act Unit} (h : Undoes drop p) :
    Undoes drop (onlyIf b p) := by
  cases b
  · exact undoes_done ()
  · exact h

end

theorem tame_done (x : α) : Tame (.done x) := undoes_done x

theorem tame_bind {p : Act α} {k : α → Act β} (hp : Tame p) (hk : ∀ x, Tame (k x)) :
    Tame (p >>= k) := undoes_bind hp hk

theorem tame_attempt {p : Act α} (hp : Tame p) : Tame (p.attempt : Act (Except Text α)) :=
  undoes_attempt hp

theorem peaceful_sql {c : StoreCall β} (h : c.isQuiet = true) : Peaceful (sql c) :=
  ⟨quietCall_store h, fun b => by cases b <;> trivial⟩

theorem peaceful_sqlResult {c : StoreCall β} (h : c.isQuiet = true) : Peaceful (sqlResult c) :=
  ⟨quietCall_store h, fun _ => trivial⟩

theorem peaceful_log {c : StoreCall β} (h : c.isQuiet = true) : Peaceful (logWriteFailure c) :=
  ⟨quietCall_store h, fun _ => trivial⟩

theorem peaceful_ask {q : Query β} (h : q.isQuiet = true) : Peaceful (ask q) :=
  ⟨quietCall_ask h, fun _ => trivial⟩

theorem peaceful_tryAsk {q : Query (Except Text β)} (h : q.isQuiet = true) :
    Peaceful (tryAsk q) :=
  ⟨quietCall_ask h, fun b => by cases b <;> trivial⟩

theorem peaceful_tryTree {c : TreeCall (Except Text β)} (h : c.isQuiet = true) :
    Peaceful (tryTree c) :=
  ⟨quietCall_tree h, fun b => by cases b <;> trivial⟩

theorem peaceful_tree {c : TreeCall β} (h : c.isQuiet = true) : Peaceful (tree c) :=
  ⟨quietCall_tree h, fun _ => trivial⟩

theorem settles_next_of_isTame {a : Memory} {c : StoreCall β} {b : Except Text β}
    (h : c.isTame = true) : Settles a (a.next (.store c) b) :=
  settles_next (by cases c <;> first | rfl | cases h) (by cases c <;> first | rfl | cases h)

theorem allowed_of_isTame {a : Memory} {c : StoreCall β} (h : c.isTame = true) :
    c.allowed a := by
  cases c <;> trivial

theorem tame_sql {c : StoreCall β} (h : c.isTame = true) : Tame (sql c) :=
  fun _ => follows_sql.2 ⟨allowed_of_isTame h, fun _ _ => settles_next_of_isTame h,
    fun _ => settles_next_of_isTame h⟩

theorem tame_sqlResult {c : StoreCall β} (h : c.isTame = true) : Tame (sqlResult c) :=
  fun _ => follows_sqlResult.2 ⟨allowed_of_isTame h, fun _ _ => settles_next_of_isTame h,
    fun _ => settles_next_of_isTame h⟩

theorem tame_log {c : StoreCall β} (h : c.isTame = true) : Tame (logWriteFailure c) :=
  fun _ => follows_logWriteFailure.2 ⟨allowed_of_isTame h, fun _ _ => settles_next_of_isTame h,
    fun _ => settles_next_of_isTame h⟩

theorem peaceful_onlyIf {b : Bool} {p : Act Unit} (h : Peaceful p) : Peaceful (onlyIf b p) := by
  cases b
  · trivial
  · exact h

theorem tame_onlyIf {b : Bool} {p : Act Unit} (h : Tame p) : Tame (onlyIf b p) :=
  undoes_onlyIf h

theorem peaceful_recordFixAttempt (fid : Nat) (failure : Text) :
    Peaceful (recordFixAttempt fid failure) :=
  quiet_bind (peaceful_sql rfl) fun _ => quiet_bind (peaceful_sql rfl) fun _ => trivial

theorem peaceful_recordRecheckAttempt (fid : Nat) (failure : Text) :
    Peaceful (recordRecheckAttempt fid failure) :=
  quiet_bind (peaceful_sql rfl) fun _ => quiet_bind (peaceful_sql rfl) fun _ => trivial

theorem peaceful_recordHarvestAttempt (fid : Nat) (failure : Text) :
    Peaceful (recordHarvestAttempt fid failure) :=
  quiet_bind (peaceful_sql rfl) fun _ => quiet_bind (peaceful_sql rfl) fun _ => trivial

theorem peaceful_releaseIfIdle (origin : Nat) : Peaceful (releaseIfIdle origin) := by
  refine quiet_bind (peaceful_sql rfl) fun live => ?_
  cases live
  · exact peaceful_tree rfl
  · trivial

theorem peaceful_closeWorkspace (ws : Workspace) : Peaceful (closeWorkspace ws) :=
  quiet_bind (quiet_attempt (peaceful_releaseIfIdle _)) fun _ => trivial

theorem peaceful_releaseSuperseded (ids : List Nat) : Peaceful (releaseSuperseded ids) := by
  induction ids with
  | nil => trivial
  | cons id rest ih =>
    exact quiet_bind (peaceful_sql rfl) fun _ =>
      quiet_bind (peaceful_releaseIfIdle _) fun _ => ih

theorem peaceful_liveRepo (repoId : Nat) : Peaceful (liveRepo repoId) := by
  refine quiet_bind (peaceful_sqlResult rfl) fun r => ?_
  split <;> trivial

theorem peaceful_livePrState (fid : Nat) : Peaceful (livePrState fid) := by
  refine quiet_bind (peaceful_sqlResult rfl) fun r => ?_
  split <;> trivial

theorem peaceful_prTarget (fid : Nat) (finding : Finding) (ps : PrState) :
    Peaceful (prTarget fid finding ps) := by
  unfold prTarget
  split
  · trivial
  · split
    · trivial
    · refine quiet_bind (peaceful_ask rfl) fun num => ?_
      cases num with
      | none => trivial
      | some num => exact quiet_bind (peaceful_log rfl) fun _ => trivial

theorem peaceful_recheckVerdict (fid : Nat) (state : JobState) :
    Peaceful (recheckVerdict fid state) := by
  unfold recheckVerdict
  split
  · trivial
  · refine quiet_bind (peaceful_ask rfl) fun file => ?_
    split <;> trivial

theorem peaceful_seenActivity (ps : PrState) : Peaceful (seenActivity ps) := by
  unfold seenActivity
  split
  · trivial
  · exact peaceful_ask rfl

theorem peaceful_engagedMark (ps : PrState) (published : Published) :
    Peaceful (engagedMark ps published) := by
  unfold engagedMark
  split
  · exact quiet_bind (peaceful_ask rfl) fun _ => trivial
  · exact peaceful_seenActivity ps

theorem peaceful_pushAndReply (fid : Nat) (start : EngageStart) (state : JobState) :
    Peaceful (pushAndReply fid start state) := by
  unfold pushAndReply
  split
  · trivial
  · refine quiet_bind (peaceful_ask rfl) fun pushed => ?_
    cases pushed with
    | error e => trivial
    | ok pushed =>
      refine quiet_bind (peaceful_ask rfl) fun replied => ?_
      cases replied <;> trivial

theorem tame_recordHarvestFailure (fid : Nat) (key : Text) :
    Tame (recordHarvestFailure fid key) := by
  refine tame_bind (Peaceful.tame (quiet_attempt (peaceful_recordHarvestAttempt _ _))) fun r => ?_
  cases r with
  | error e => exact tame_done _
  | ok streak =>
    dsimp only
    split
    · exact tame_done _
    · refine tame_bind (Peaceful.tame (peaceful_ask rfl)) fun _ => ?_
      refine tame_bind (tame_sqlResult rfl) fun r => ?_
      cases r with
      | error e => exact tame_done _
      | ok _ => exact tame_bind (Peaceful.tame (peaceful_log rfl)) fun _ => tame_done _

end Hunter
