import Hunter.Guarantees.MissingSessions
set_option autoImplicit false

namespace Hunter
open Effect

/-! What moves a repo's watermark, and what settles a request for a full hunt. -/

/-- The file of findings read last, by the job it is named for. -/
def Call.reviews : {β : Type} → Call β → β → Option (Nat × FindingsFile) →
    Option (Nat × FindingsFile)
  | _, .tree (.findingsFile out), file, _ => some (out, file)
  | _, _, _, last => last

def reviewing : Machine Call Text (World × Option (Nat × FindingsFile)) :=
  daemon.watch none (fun c _ b _ last => c.reviews b last) fun _ _ last => last

def Reviewed (a : Memory) (last : Option (Nat × FindingsFile)) : Prop :=
  ∀ out file, Fact.output out file ∈ a → last = some (out, file)

section
variable {β : Type} {a : Memory} {s s' : Store} {b : β} {r : Nat} {repo repo' : Repo}

theorem not_learns_output {c : StoreCall β} {n : Nat} {file : FindingsFile} :
    ¬ c.learns a b (.output n file) := by
  intro hlearn
  cases c with
  | findingsWithStatus =>
    obtain ⟨row, -, hx⟩ := hlearn
    cases tells_listed hx
  | listResumableJobs =>
    obtain ⟨row, -, hx⟩ := hlearn
    cases offerTells_listed hx
  | _ => simp [StoreCall.learns] at hlearn

theorem reviewed_call {c : Call β} {last : Option (Nat × FindingsFile)} (h : Reviewed a last) :
    Reviewed (a.next c b) (c.reviews b last) := by
  intro n file hx
  cases c with
  | ask q => exact h n file (hx.elim And.left False.elim)
  | store c =>
    cases b with
    | ok b => exact h n file (hx.elim And.left fun hlearn => absurd hlearn not_learns_output)
    | error e => exact h n file (hx.elim And.left False.elim)
  | tree t =>
    cases t with
    | findingsFile m =>
      rcases hx with ⟨-, hforget⟩ | hlearn
      · exact absurd rfl hforget
      · cases hlearn
        rfl
    | prompt id brief =>
      refine h n file (hx.elim And.left fun hlearn => ?_)
      cases brief <;> simp [Call.learns, TreeCall.learns] at hlearn
    | _ =>
      refine h n file (hx.elim And.left fun hlearn => ?_)
      simp [Call.learns, TreeCall.learns] at hlearn

theorem reviewed_entry {last : Option (Nat × FindingsFile)} (phase : Phase) :
    Reviewed phase.known last :=
  fun _ _ hx => absurd (Phase.known_handedOver hx) Bool.false_ne_true

end

theorem reviewed_invariant : Machine.InvariantUnder reviewing (follower.watch _ _ _)
    (fun a x => Known a x.1) fun a x => Reviewed a x.2 where
  init _ _ := reviewed_entry .startup
  call a c x b x' _ _ h hstep _ := by
    rw [hstep.2]
    exact reviewed_call h
  finish _ phase _ _ _ _ := reviewed_entry phase
  abort _ _ _ _ _ := reviewed_entry .reconcile
  crash _ _ _ _ _ _ _ := reviewed_entry .startup
  env a x x' _ h henv := by
    rw [henv.2]
    exact h

/-- A hunt of repo `r` is done and pinned at `sha`, and the findings read last are those of its
chain's file: whole, and each one valid. -/
def HuntReviewed (s : Store) (last : Option (Nat × FindingsFile)) (r : Nat) (sha : Text) : Prop :=
  ∃ job j list, s.job? job = some j ∧ j.kind = .repo .hunt ∧ j.repoId = r ∧ j.state = .done ∧
    j.pinnedSha = some sha ∧ last = some (s.outJob job, .entries list) ∧ none ∉ list

theorem hasReviewed_holds {a : Memory} {s : Store} {last : Option (Nat × FindingsFile)} {r : Nat}
    {sha : Text} (hknown : ∀ x ∈ a, x.holds s) (hlast : Reviewed a last)
    (h : a.hasReviewed r sha) : HuntReviewed s last r sha := by
  obtain ⟨p, out, list, hhunt, hdone, hpinned, hlatest, houtput, hvalid⟩ := h
  obtain ⟨j, hj, hkind, hrepo⟩ := hknown _ hhunt
  obtain ⟨i, hi, hstate⟩ := hknown _ hdone
  cases hj.symm.trans hi
  obtain ⟨i, hi, hsha⟩ := hknown _ hpinned
  cases hj.symm.trans hi
  obtain ⟨-, -, rfl⟩ := hknown _ hlatest
  exact ⟨p, j, list, hj, hkind, hrepo, hstate, hsha, hlast _ _ houtput, hvalid⟩

section
variable {x y : Config reviewing} {r : Nat} {repo repo' : Repo}

/-- What a step changes of a repo is a request's doing, or a statement's of the daemon. -/
inductive RepoStep (x y : Config reviewing) (r : Nat) (repo repo' : Repo) : Prop
  | same : repo' = repo → RepoStep x y r repo repo'
  | request {request : Request} : y.rest = x.rest →
      Accepts x.state.1.store request y.state.1.store →
      OperatorRepoChange request r repo repo' → RepoStep x y r repo repo'
  | statement {β : Type} {c : StoreCall β} {k : Except Text β → Act Phase} :
      x.rest = .call (.store c) k → RepoChange c x.state.1.store r repo repo' →
      RepoStep x y r repo repo'

/-- The row goes only with a repo that is deleted. -/
theorem repo_step (hstep : reviewing.Step x y) (hr : x.state.1.store.repo? r = some repo) :
    (∃ repo', y.state.1.store.repo? r = some repo' ∧ RepoStep x y r repo repo') ∨
      y.state.1.store.repo? r = none ∧ repo.deleted = true := by
  have hsame : y.state.1.store = x.state.1.store →
      ∃ repo', y.state.1.store.repo? r = some repo' ∧ RepoStep x y r repo repo' :=
    fun h => ⟨repo, by rw [h, hr], .same rfl⟩
  cases hstep with
  | finish | abort | crash => exact Or.inl (hsame rfl)
  | @env p w w' henv =>
    obtain ⟨w', notes⟩ := w'
    cases henv.1 with
    | treeLost => exact Or.inl (hsame rfl)
    | request haccept =>
      rcases haccept.repoEdits hr with ⟨repo', hr', hchange⟩ | ⟨hgone, hdeleted, -⟩
      · exact Or.inl ⟨repo', hr', .request rfl haccept hchange⟩
      · exact Or.inr ⟨hgone, hdeleted⟩
  | @call β c k w w' b h =>
    have h := h.1
    cases c with
    | ask q => exact Or.inl (hsame (congrArg World.store h.leaves))
    | tree t => exact Or.inl (hsame h.leaves)
    | store c =>
      rcases h.leaves with ⟨b', s', rfl, happly, hw⟩ | ⟨-, hw⟩
      · simp only [hw]
        rcases StoreCall.repoEdits happly hr with ⟨repo', hr', hchange⟩ | ⟨hgone, hdeleted, -⟩
        · exact Or.inl ⟨repo', hr', .statement rfl hchange⟩
        · exact Or.inr ⟨hgone, hdeleted⟩
      · exact Or.inl (hsame (congrArg World.store hw))

/-- No request of the operator's moves the watermark of a repo, and in every run it is moved in two
ways only: it is dropped, or it is set to the commit that a hunt of that repo is pinned at, once
the hunt is done and the findings of its chain's file were read whole and each one valid. -/
theorem watermark_moves (hx : reviewing.Reachable x)
    (hr : x.state.1.store.repo? r = some repo) :
    (∀ request s' repo', Accepts x.state.1.store request s' → s'.repo? r = some repo' →
      repo'.lastHuntSha = repo.lastHuntSha) ∧
    ∀ y repo', reviewing.Step x y → y.state.1.store.repo? r = some repo' →
      repo'.lastHuntSha ≠ repo.lastHuntSha →
      repo'.lastHuntSha = none ∨
        ∃ sha, repo'.lastHuntSha = some sha ∧ HuntReviewed x.state.1.store x.state.2 r sha := by
  constructor
  · intro request s' repo' haccept hr'
    rcases haccept.repoEdits hr with ⟨repo'', hr'', hchange⟩ | ⟨hgone, -⟩
    · cases hr'.symm.trans hr''
      exact hchange.last
    · cases hr'.symm.trans hgone
  intro y repo' hstep hr' hmoved
  rcases repo_step hstep hr with ⟨repo'', hr'', hchange⟩ | ⟨hgone, -⟩
  swap
  · cases hr'.symm.trans hgone
  cases hr'.symm.trans hr''
  obtain hsame | ⟨-, -, hchange⟩ | @⟨β, c, k, hrest, hchange⟩ := hchange
  · exact absurd (congrArg Repo.lastHuntSha hsame) hmoved
  · exact absurd hchange.last hmoved
  have hmarks := hchange.last.resolve_left hmoved
  obtain ⟨a, hfollows, hknown, hlast⟩ :=
    ((known_invariant.watch _ _ _).and reviewed_invariant).reachable hx
  rw [hrest] at hfollows
  cases c with
  | clearLastHuntSha => exact Or.inl hmarks.2
  | setLastHunt q sha =>
    obtain ⟨rfl, hset⟩ := hmarks
    refine Or.inr ⟨sha, hset, ?_⟩
    rcases hfollows.1 with ⟨full, hwatermark⟩ | hreviewed
    · -- written again as it was
      obtain ⟨-, hcolumns⟩ := hknown.facts _ hwatermark
      exact absurd (hset.trans (hcolumns repo hr).1.symm) hmoved
    · exact hasReviewed_holds hknown.facts hlast hreviewed
  | _ => exact hmarks.elim

end

def reviewingReply (o : Outside) : Machine.Reply Call (World × Option (Nat × FindingsFile)) :=
  o.reply.watch fun c _ b _ last => c.reviews b last

def requestHunt (s : Store) : Store := s.requestFullHunt 0 5

/-- A full hunt was requested, stopped by the cap and resumed, and the daemon is about to make one
of the calls of the attempt that goes on with it. -/
def huntingUntil (stops : {β : Type} → Call β → Bool) : Config reviewing :=
  play reviewingReply (List.replicate 5 { hunting with run := cappedRun } ++
      List.replicate 4 { hunting with stops := stops })
    (requestedBeside (fun _ _ last => last) requestHunt
      (requestedBeside (fun _ _ last => last) addSampleRepo
        ⟨reviewing.body reviewing.boot, emptyWorld, none⟩))

theorem reachable_huntingUntil (stops : {β : Type} → Call β → Bool) :
    reviewing.Reachable (huntingUntil stops) := by
  have henv : ∀ w w' last, EnvStep w w' → reviewing.env (w, last) (w', last) :=
    fun _ _ _ h => ⟨h, rfl⟩
  have hstart : reviewing.Reachable ⟨reviewing.body reviewing.boot, emptyWorld, none⟩ :=
    .start ⟨rfl, rfl⟩
  have hbooted := reachable_requestedBeside (r := .addRepo ['r'] ['m']) (s := addSampleRepo) henv
    hstart .addRepo
  exact reachable_play (fun o => Machine.Faithful.watch o.faithful_reply)
    (reachable_requestedBeside (r := .fullHunt 0 5) henv hbooted .fullHunt)

def isMark : {β : Type} → Call β → Bool
  | _, .store (.setLastHunt r sha) => r = 0 && sha = []
  | _, _ => false

theorem reviewing_call {β : Type} {c : Call β} {k : β → Act Phase} {w w' : World} {b : β}
    {last : Option (Nat × FindingsFile)} (h : CallStep c w b w') :
    reviewing.Step ⟨.call c k, w, last⟩ ⟨k b, w', c.reviews b last⟩ :=
  .call ⟨h, rfl⟩

theorem watermark_moves_first : ∃ x y repo', reviewing.Reachable x ∧ reviewing.Step x y ∧
    y.state.1.store.repo? 0 = some repo' ∧ repo'.lastHuntSha = some [] ∧
    x.state.1.store.jobs.length = 2 ∧ x.state.2.map Prod.fst = some 0 ∧
    HuntReviewed x.state.1.store x.state.2 0 [] := by
  have hnext : Machine.nextIs isMark (huntingUntil isMark).rest = true := by decide +kernel
  have hrepo : ((huntingUntil isMark).state.1.store.repo? 0).any
      (fun repo => repo.lastHuntSha.isNone) = true := by decide +kernel
  have hjobs : (huntingUntil isMark).state.1.store.jobs.length = 2 ∧
      (huntingUntil isMark).state.2.map Prod.fst = some 0 := by decide +kernel
  have hx := reachable_huntingUntil isMark
  obtain ⟨β, c, k, hrest, hmark⟩ := Machine.exists_next hnext
  generalize huntingUntil isMark = x at *
  obtain ⟨rest, w, last⟩ := x
  subst hrest
  obtain ⟨repo, hrepo, hnone⟩ := (Option.any_eq_true _ _).1 hrepo
  cases c with
  | ask | tree => cases hmark
  | store c =>
    cases c with
    | setLastHunt r sha =>
      simp only [isMark, Bool.and_eq_true, decide_eq_true_eq] at hmark
      obtain ⟨rfl, rfl⟩ := hmark
      have hmarked : CallStep (.store (.setLastHunt 0 [])) w (.ok ())
          { w with store := w.store.setLastHunt 0 [] } := .store rfl rfl
      have hrepo' : (w.store.setLastHunt 0 []).repo? 0 =
          some { repo with lastHuntSha := some [] } := by
        rw [Store.setLastHunt, Store.repo?_modifyRepo, if_pos rfl, hrepo]
        rfl
      have hmoved : some [] ≠ repo.lastHuntSha := by
        rw [Option.isNone_iff_eq_none.1 hnone]
        exact nofun
      rcases (watermark_moves hx hrepo).2 _ _ (reviewing_call hmarked) hrepo'
        hmoved with hnone | ⟨sha, hsha, hreviewed⟩
      · cases hnone
      · cases hsha
        exact ⟨_, _, _, hx, reviewing_call hmarked, hrepo', rfl, hjobs.1, hjobs.2, hreviewed⟩
    | _ => cases hmark

namespace Store

def Marked (s : Store) : Prop :=
  ∀ id j, s.job? id = some j → j.fullHuntRequest.isSome → j.fullHistory = true

end Store

theorem marked_apply {β : Type} {c : StoreCall β} {s s' : Store} {b : β} {a : Memory}
    (h : c.apply s = some (b, s')) (hallow : c.allowed a) (hmarked : s.Marked) : s'.Marked := by
  intro id j' hj' hrequest
  rcases StoreCall.job_cases h (fair_of_allowed hallow) hj' with ⟨j, hj, hchange⟩ | hinsert
  · rcases hchange.scope with ⟨hfull, hsame⟩ | ⟨hfull, -⟩
    · rw [hsame] at hrequest
      rw [hfull]
      exact hmarked id j hj hrequest
    · exact hfull
  · cases c with
    | createJob kind repoId findingId state resumedFrom =>
      obtain ⟨-, -, rfl⟩ := hinsert
      obtain ⟨v, hv⟩ := Option.isSome_iff_exists.1 hrequest
      obtain ⟨q, hq, hqv⟩ := Option.bind_eq_some_iff.1 hv
      obtain ⟨p, hp, hpq⟩ := Option.bind_eq_some_iff.1 hq
      simp only [Store.newJob, hq, Option.any_some]
      exact hmarked p q hpq (by simp [hqv])
    | _ => exact hinsert.elim

theorem marked_invariant : Machine.InvariantUnder daemon follower Known
    fun _ w => w.store.Marked where
  init w hw := by
    cases hw
    exact fun id j hj => by simp [Store.job?] at hj
  call a c w b w' hallow _ hmarked h _ := by
    cases c with
    | ask q =>
      rw [show w' = w from h.leaves]
      exact hmarked
    | tree c =>
      rw [show w'.store = w.store from h.leaves]
      exact hmarked
    | store c =>
      rcases h.leaves with ⟨b', s', rfl, happly, rfl⟩ | ⟨-, rfl⟩
      · exact marked_apply happly hallow hmarked
      · exact hmarked
  finish a phase w _ _ hmarked := hmarked
  abort a w _ _ hmarked := hmarked
  crash a p w _ _ _ hmarked := hmarked
  env a w w' _ hmarked henv := by
    intro id j hj
    rw [Store.job?, henv.jobs] at hj
    exact hmarked id j hj

section
variable {x y : Config reviewing} {r : Nat} {repo repo' : Repo} {v : Int}

/-- A request for a full hunt stays pending until the operator makes a later one, which no step of
the daemon's does, or until a hunt of the repo over its whole history is done whose chain took up
that very request; and it goes with the row of a repo that is deleted. -/
theorem fullHunt_request_kept (hx : reviewing.Reachable x) (hstep : reviewing.Step x y)
    (hr : x.state.1.store.repo? r = some repo) (hpending : repo.fullHuntRequestedAt = some v) :
    (y.state.1.store.repo? r = none ∧ repo.deleted = true) ∨
      ∃ repo', y.state.1.store.repo? r = some repo' ∧ (repo'.fullHuntRequestedAt = some v ∨
        (y.rest = x.rest ∧ ∃ now w, Accepts x.state.1.store (.fullHunt r now) y.state.1.store ∧
          repo'.fullHuntRequestedAt = some w ∧ v < w ∧
            ∀ attempted, repo.fullHuntRequestAttempted = some attempted → attempted < w) ∨
        repo'.fullHuntRequestedAt = none ∧ ∃ job j, x.state.1.store.job? job = some j ∧
          j.kind = .repo .hunt ∧ j.repoId = r ∧ j.state = .done ∧ j.fullHistory = true ∧
            j.fullHuntRequest = some v) := by
  rcases repo_step hstep hr with ⟨repo', hr', hchange⟩ | hgone
  swap
  · exact Or.inl hgone
  refine Or.inr ⟨repo', hr', ?_⟩
  obtain rfl | ⟨hrest, haccept, hchange⟩ | @⟨β, c, k, hrest, hchange⟩ := hchange
  · exact Or.inl hpending
  · rcases hchange.request with hsame | ⟨now, rfl, hnext⟩
    · exact Or.inl (hsame.trans hpending)
    · refine Or.inr (Or.inl ⟨hrest, now, _, haccept, hnext, ?_, fun attempted h => ?_⟩)
      · simp only [Store.nextRequest, hpending, Option.getD_some]
        omega
      · simp only [Store.nextRequest, h, Option.getD_some]
        omega
  · rcases hchange.request with hsame | ⟨hdropped, hsettles⟩
    · exact Or.inl (hsame.trans hpending)
    · obtain ⟨a, hfollows, hknown, hmarked⟩ :=
        ((known_invariant.and marked_invariant).watch _ _ _).reachable hx
      rw [hrest] at hfollows
      cases c with
      | settleFullHuntRequest q job =>
        obtain ⟨rfl, -, hsame⟩ := hsettles
        obtain ⟨hhunt, hdone⟩ := hfollows.1
        obtain ⟨j, hj, hkind, hrepo⟩ := hknown.facts _ hhunt
        obtain ⟨i, hi, hstate⟩ := hknown.facts _ hdone
        cases hj.symm.trans hi
        rw [hpending, hj] at hsame
        exact Or.inr (Or.inr ⟨hdropped, job, j, hj, hkind, hrepo, hstate,
          hmarked job j hj (by rw [show j.fullHuntRequest = some v from hsame.symm]; rfl),
          hsame.symm⟩)
      | _ => exact hsettles.elim

end

def isSettle : {β : Type} → Call β → Bool
  | _, .store (.settleFullHuntRequest r job) => r = 0 && job = 1
  | _, _ => false

theorem fullHunt_request_settled : ∃ x y repo', reviewing.Reachable x ∧ reviewing.Step x y ∧
    y.state.1.store.repo? 0 = some repo' ∧ repo'.fullHuntRequestedAt = none ∧
    ∃ job j, x.state.1.store.job? job = some j ∧ j.kind = .repo .hunt ∧ j.state = .done ∧
      j.fullHistory = true ∧ j.fullHuntRequest = some 5 := by
  have hnext : Machine.nextIs isSettle (huntingUntil isSettle).rest = true := by decide +kernel
  have hrepo : ((huntingUntil isSettle).state.1.store.repo? 0).any
      (fun repo => repo.fullHuntRequestedAt = some 5) = true := by decide +kernel
  have hjob : ((huntingUntil isSettle).state.1.store.job? 1).bind Job.fullHuntRequest =
      some 5 := by decide +kernel
  have hx := reachable_huntingUntil isSettle
  obtain ⟨β, c, k, hrest, hsettle⟩ := Machine.exists_next hnext
  generalize huntingUntil isSettle = x at *
  obtain ⟨rest, w, last⟩ := x
  subst hrest
  obtain ⟨repo, hrepo, hpending⟩ := (Option.any_eq_true _ _).1 hrepo
  have hpending := of_decide_eq_true hpending
  cases c with
  | ask | tree => cases hsettle
  | store c =>
    cases c with
    | settleFullHuntRequest r job =>
      simp only [isSettle, Bool.and_eq_true, decide_eq_true_eq] at hsettle
      obtain ⟨rfl, rfl⟩ := hsettle
      have hsettled : CallStep (.store (.settleFullHuntRequest 0 1)) w (.ok ())
          { w with store := w.store.settleFullHuntRequest 0 1 } := .store rfl rfl
      have hrepo' : (w.store.settleFullHuntRequest 0 1).repo? 0 =
          some { repo with fullHuntRequestedAt := none } := by
        rw [Store.settleFullHuntRequest, Store.repo?_modifyRepo, if_pos rfl, hrepo, Option.map_some]
        simp only [hpending, hjob, if_true]
      rcases fullHunt_request_kept hx (reviewing_call hsettled) hrepo hpending with
        ⟨hgone, -⟩ | ⟨repo', hr', hcases⟩
      · cases hrepo'.symm.trans hgone
      cases hrepo'.symm.trans hr'
      rcases hcases with
        hkept | ⟨-, now, v, -, hmade, -⟩ | ⟨-, job, j, hj, hkind, -, hstate, hfull, hrequest⟩
      · cases hkept
      · cases hmade
      · exact ⟨_, _, _, hx, reviewing_call hsettled, hrepo', rfl, job, j, hj, hkind, hstate, hfull,
          hrequest⟩
    | _ => cases hsettle

end Hunter
