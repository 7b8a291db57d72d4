import Hunter.Guarantees.Chains
import Hunter.Guarantees.LiveTrees
set_option autoImplicit false

namespace Hunter
open Effect

/-- The jobs of `kind` that `n` links lead back to from `head`. -/
inductive KindLinks (s : Store) (kind : JobKind) (head : Nat) : Nat → Nat → Prop
  | refl : KindLinks s kind head 0 head
  | step {n mid id : Nat} : KindLinks s kind head n mid → s.kindParent kind mid = some id →
      KindLinks s kind head (n + 1) id

section
variable {s : Store} {kind : JobKind} {head p id : Nat}

theorem kindParent_iff : s.kindParent kind id = some p ↔
    ∃ j k, s.job? id = some j ∧ j.resumedFrom = some p ∧ s.job? p = some k ∧ k.kind = kind := by
  simp only [Store.kindParent, Option.filter_eq_some_iff, Option.bind_eq_some_iff,
    Option.any_eq_true, decide_eq_true_eq]
  constructor
  · rintro ⟨⟨j, hj, hfrom⟩, k, hk, hkind⟩
    exact ⟨j, k, hj, hfrom, hk, hkind⟩
  · rintro ⟨j, k, hj, hfrom, hk, hkind⟩
    exact ⟨⟨j, hj, hfrom⟩, k, hk, hkind⟩

theorem KindLinks.cons {n : Nat} (h : s.kindParent kind head = some p)
    (hlinks : KindLinks s kind p n id) : KindLinks s kind head (n + 1) id := by
  induction hlinks with
  | refl => exact .step .refl h
  | step _ hparent ih => exact .step ih hparent

theorem KindLinks.uncons {n : Nat} (h : KindLinks s kind head (n + 1) id) :
    ∃ p, s.kindParent kind head = some p ∧ KindLinks s kind p n id := by
  induction n generalizing id with
  | zero =>
    cases h with
    | step hlinks hparent =>
      cases hlinks
      exact ⟨id, hparent, .refl⟩
  | succ n ih =>
    cases h with
    | step hlinks hparent =>
      obtain ⟨p, hp, hrest⟩ := ih hlinks
      exact ⟨p, hp, .step hrest hparent⟩

/-- The rows of a sample are those the links lead back to, down to the query's depth. -/
theorem mem_kindAncestry {depth : Nat} :
    id ∈ s.kindAncestry kind depth head ↔ ∃ n ≤ depth, KindLinks s kind head n id := by
  induction depth generalizing head with
  | zero =>
    simp only [Store.kindAncestry, List.mem_singleton, Nat.le_zero]
    constructor
    · rintro rfl
      exact ⟨0, rfl, .refl⟩
    · rintro ⟨n, rfl, hlinks⟩
      cases hlinks
      rfl
  | succ depth ih =>
    rw [Store.kindAncestry, List.mem_cons]
    constructor
    · rintro (rfl | hmem)
      · exact ⟨0, Nat.zero_le _, .refl⟩
      · cases hp : s.kindParent kind head with
        | none =>
          rw [hp] at hmem
          cases hmem
        | some p =>
          rw [hp] at hmem
          obtain ⟨n, hn, hlinks⟩ := ih.1 hmem
          exact ⟨n + 1, by omega, hlinks.cons hp⟩
    · rintro ⟨n, hn, hlinks⟩
      cases n with
      | zero =>
        cases hlinks
        exact Or.inl rfl
      | succ n =>
        obtain ⟨p, hp, hrest⟩ := hlinks.uncons
        rw [hp]
        exact Or.inr (ih.2 ⟨n, by omega, hrest⟩)

theorem mem_kindChain :
    id ∈ s.kindChain kind head ↔ ∃ n ≤ resumeChainMaxDepth, KindLinks s kind head n id :=
  List.mem_dedup.trans mem_kindAncestry

end

def Store.Completed (s : Store) (kind : JobKind) (id : Nat) : Prop :=
  ∃ j, s.job? id = some j ∧ j.kind = kind ∧ j.state = .done ∧ j.tokensNew.isSome

section
variable {s : Store} {kind : JobKind} {id : Nat}

def Store.doneRows (s : Store) (kind : JobKind) : List Nat :=
  (((rows s.jobs).filter fun row =>
    row.val.kind = kind && row.val.state = .done && row.val.tokensNew.isSome).reverse).map Row.id

theorem recentDone_eq : s.recentDone kind = (s.doneRows kind).take recentCompletedWindow := by
  rw [Store.recentDone, Store.doneRows, List.map_take]

theorem mem_doneRows : id ∈ s.doneRows kind ↔ s.Completed kind id := by
  rw [Store.doneRows, List.map_reverse, List.mem_reverse, Store.mem_filter_rows]
  simp only [Bool.and_eq_true, decide_eq_true_eq, Store.Completed, and_assoc]

theorem pairwise_doneRows : (s.doneRows kind).Pairwise (· > ·) := by
  have hsorted : ((rows s.jobs).map Row.id).Pairwise (· < ·) := by
    rw [map_id_rows]
    exact List.pairwise_lt_range'
  rw [Store.doneRows, List.map_reverse, List.pairwise_reverse]
  exact hsorted.sublist (List.filter_sublist.map _)

/-- The window takes done rows, each once, and none older than one it leaves out. -/
theorem recentDone_newest : (s.recentDone kind).Nodup ∧
    (∀ id ∈ s.recentDone kind, s.Completed kind id) ∧
    ∀ id, s.Completed kind id → id ∉ s.recentDone kind →
      (s.recentDone kind).length = recentCompletedWindow ∧
        ∀ other ∈ s.recentDone kind, id < other := by
  have hsorted : (s.doneRows kind).Pairwise (· > ·) := pairwise_doneRows
  rw [recentDone_eq]
  refine ⟨?_, fun id hid => mem_doneRows.1 (List.mem_of_mem_take hid), fun id hid hout => ?_⟩
  · exact (hsorted.imp fun h => Nat.ne_of_gt h).sublist (List.take_sublist _ _)
  · have hmem := mem_doneRows.2 hid
    rw [← List.take_append_drop recentCompletedWindow (s.doneRows kind)] at hmem hsorted
    have hdrop := (List.mem_append.1 hmem).resolve_left hout
    refine ⟨?_, fun other hother => (List.pairwise_append.1 hsorted).2.2 other hother id hdrop⟩
    rw [List.length_take]
    have hlen := List.length_pos_of_mem hdrop
    rw [List.length_drop] at hlen
    omega

end

/-- A job that one of its kind goes on with is neither running nor done. -/
def Store.Passed (s : Store) : Prop :=
  ∀ id j p k, s.job? id = some j → j.resumedFrom = some p → s.job? p = some k →
    k.kind = j.kind → k.state ≠ .running ∧ k.state ≠ .done

section
variable {β : Type} {c : StoreCall β} {s s' : Store} {b : β} {a : Memory}

theorem passed_moved {p : Nat} {k k' : Job} (hallow : c.allowed a)
    (hknown : ∀ y ∈ a, y.holds s) (hk : s.job? p = some k) (hchange : JobChange c p k k')
    (hpassed : k.state ≠ .running ∧ k.state ≠ .done) :
    k'.state ≠ .running ∧ k'.state ≠ .done := by
  rcases hchange.state with hsame | hmoves
  · rw [hsame]
    exact hpassed
  · cases c with
    | completeJob q outcome =>
      obtain ⟨rfl, -⟩ := hmoves
      obtain ⟨j, hj, hrunning⟩ := hknown _ hallow.1
      cases hk.symm.trans hj
      exact absurd hrunning hpassed.1
    | failUnstartedJob | failJob | suspendOrphan | orphanJob =>
      rw [hmoves.2]
      exact ⟨nofun, nofun⟩
    | retireSuspendedJob q state why =>
      obtain ⟨rfl, htarget⟩ := hmoves
      rw [htarget]
      rcases hallow.1 with rfl | rfl <;> exact ⟨nofun, nofun⟩
    | retireStrandedSuspensions =>
      rw [hmoves.2]
      exact ⟨nofun, nofun⟩
    | createJob =>
      rw [hmoves.2.2]
      exact ⟨nofun, nofun⟩
    | blockFixJob =>
      rw [hmoves.2.2.2]
      exact ⟨nofun, nofun⟩
    | _ => exact hmoves.elim

/-- A job of its kind that a new job goes on with is suspended. -/
theorem suspended_of_continued {kind : JobKind} {repoId p : Nat}
    {findingId resumedFrom : Option Nat} {k : Job}
    (hmay : a.MayCreate kind repoId findingId resumedFrom) (hknown : ∀ y ∈ a, y.holds s)
    (hp : resumedFrom = some p) (hk : s.job? p = some k) (hkind : k.kind = kind) :
    k.state = .suspended := by
  rcases hmay.continues p hp with ⟨g, hoffered, -, -⟩ | ⟨rfl, f, -, hengaged, -⟩
  · obtain ⟨j, hj, -, -, hsuspended, -⟩ := hknown _ hoffered
    cases hk.symm.trans hj
    exact hsuspended
  · obtain ⟨j, hj, hengage, -⟩ := hknown _ hengaged
    cases hk.symm.trans hj
    cases hkind.symm.trans hengage

theorem passed_step (h : c.apply s = some (b, s')) (hallow : c.allowed a)
    (hknown : ∀ y ∈ a, y.holds s) (hdescends : s'.Descends) (hpassed : s.Passed) :
    s'.Passed := by
  have hfair := fair_of_allowed hallow
  intro id j' p k' hj' hfrom hk' hkind
  rcases StoreCall.job_cases h hfair hk' with ⟨k, hk, hkchange⟩ | hinsert'
  · refine passed_moved hallow hknown hk hkchange ?_
    rcases StoreCall.job_cases h hfair hj' with ⟨j, hj, hchange⟩ | hinsert
    · refine hpassed id j p k hj (hchange.resumedFrom.symm.trans hfrom) hk ?_
      rw [← hkchange.kind, hkind, hchange.kind]
    · cases c with
      | createJob kind repoId findingId state resumedFrom =>
        obtain ⟨-, -, rfl⟩ := hinsert
        have hsuspended := suspended_of_continued hallow.2 hknown hfrom hk
          (hkchange.kind.symm.trans hkind)
        rw [hsuspended]
        exact ⟨nofun, nofun⟩
      | _ => exact hinsert.elim
  · -- nothing goes on with a new job yet
    have hnew := StoreCall.inserts_id hinsert'
    have hlt := hdescends id j' p hj' hfrom
    have hbound := Store.job?_lt hj'
    rcases StoreCall.inserted h with hlen | ⟨hlen, -⟩ <;> omega

theorem passed_invariant : Machine.InvariantUnder daemon follower Known
    fun _ w => w.store.Passed where
  init w hw := by
    cases hw
    exact fun id j p k hj => by simp [Store.job?] at hj
  call a c w b w' hallow hknown hpassed h hnext := by
    cases c with
    | ask q =>
      rw [show w' = w from h.leaves]
      exact hpassed
    | tree c =>
      rw [show w'.store = w.store from h.leaves]
      exact hpassed
    | store c =>
      rcases h.leaves with ⟨b', s', rfl, happly, rfl⟩ | ⟨-, rfl⟩
      · exact passed_step happly hallow hknown.facts hnext.descends hpassed
      · exact hpassed
  finish _ _ _ _ _ hpassed := hpassed
  abort _ _ _ _ hpassed := hpassed
  crash _ _ _ _ _ _ hpassed := hpassed
  env a w w' _ hpassed henv := by
    cases henv with
    | treeLost => exact hpassed
    | @request r s' haccept =>
      have hjob : ∀ p, s'.job? p = w.store.job? p := fun p => by
        rw [Store.job?, haccept.jobs, Store.job?]
      simpa only [Store.Passed, hjob] using hpassed

end

theorem head_unique {s : Store} {kind : JobKind} {head head' id n n' : Nat}
    (hunbranched : s.Unbranched) (hpassed : s.Passed) (hhead : s.Completed kind head)
    (hhead' : s.Completed kind head') (h : KindLinks s kind head n id)
    (h' : KindLinks s kind head' n' id) : head = head' := by
  -- a done row has no successor of its kind
  have hlast : ∀ {head m}, s.Completed kind head → ∀ {top l}, s.Completed kind top →
      KindLinks s kind top l m → s.kindParent kind m ≠ some head := by
    intro head m hdone top l htop hlinks hparent
    obtain ⟨k, hk, hkind, hstate, -⟩ := hdone
    obtain ⟨j, k', hj, hfrom, hk', -⟩ := kindParent_iff.1 hparent
    have hjkind : j.kind = kind := by
      cases hlinks with
      | refl =>
        obtain ⟨j', hj', hkind', -⟩ := htop
        cases hj.symm.trans hj'
        exact hkind'
      | step _ hparent' =>
        obtain ⟨-, k'', -, -, hk'', hkind''⟩ := kindParent_iff.1 hparent'
        cases hj.symm.trans hk''
        exact hkind''
    exact (hpassed m j head k hj hfrom hk (hkind.trans hjkind.symm)).2 hstate
  induction n generalizing id n' with
  | zero =>
    cases h
    cases h' with
    | refl => rfl
    | step hlinks hparent => exact absurd hparent (hlast hhead hhead' hlinks)
  | succ n ih =>
    cases h with
    | step hlinks hparent =>
      cases h' with
      | refl => exact absurd hparent (hlast hhead' hhead hlinks)
      | step hlinks' hparent' =>
        obtain ⟨j, -, hj, hfrom, -⟩ := kindParent_iff.1 hparent
        obtain ⟨j', -, hj', hfrom', -⟩ := kindParent_iff.1 hparent'
        obtain rfl := hunbranched _ _ j j' id hj hj' hfrom hfrom'
        exact ih hlinks hlinks'

/-- Once the window of the newest done rows holds three, the history is one sample for each: what
the jobs of its kind spent that its links lead back to, down to the query's depth. Before, it is
what every job of the kind spent. No job is in the chains of two done rows. -/
theorem kindTokenHistory_samples {x : Config daemon} (hx : daemon.Reachable x) (kind : JobKind) :
    let s := x.state.store
    let heads := s.recentDone kind
    (heads.Nodup ∧ (∀ id ∈ heads, s.Completed kind id) ∧
        ∀ id, s.Completed kind id → id ∉ heads →
          heads.length = recentCompletedWindow ∧ ∀ other ∈ heads, id < other) ∧
      (if minCompletedSamples ≤ heads.length then (s.kindTokenHistory kind).Perm
          (heads.map fun head => s.tokensOf (s.kindChain kind head))
        else (s.kindTokenHistory kind).Perm (s.kindTokens kind)) ∧
      (∀ head, (s.kindChain kind head).Nodup ∧ ∀ id, id ∈ s.kindChain kind head ↔
        ∃ n ≤ resumeChainMaxDepth, KindLinks s kind head n id) ∧
      ∀ head head' n n' id, s.Completed kind head → s.Completed kind head' →
        KindLinks s kind head n id → KindLinks s kind head' n' id → head = head' := by
  obtain ⟨a, -, -, hchains⟩ := (known_invariant.and chains_invariant).reachable hx
  obtain ⟨a', -, -, hpassed⟩ := (known_invariant.and passed_invariant).reachable hx
  refine ⟨recentDone_newest, ?_, fun head => ⟨List.nodup_dedup _, fun id => mem_kindChain⟩, ?_⟩
  · rw [Store.kindTokenHistory, List.length_insertionSort, List.length_map]
    split <;> exact List.perm_insertionSort _ _
  · exact fun _ _ _ _ _ hhead hhead' h h' =>
      head_unique hchains.unbranched hpassed hhead hhead' h h'

/-- A hunt stopped by the cap, continued and done, and a hunt of each of two later tips. -/
def threeHunts : Config daemon :=
  playDaemon (List.replicate 5 { hunting with run := cappedRun } ++ List.replicate 4 hunting ++
    List.replicate 4 { hunting with tip := ['b'], run := { routine.run with tokensNew := 5 } } ++
      List.replicate 4 { hunting with tip := ['c'] }) booted

theorem reachable_threeHunts : daemon.Reachable threeHunts :=
  reachable_playDaemon reachable_booted

/-- One sample for each of the hunts done, the first with what its capped attempt spent. -/
theorem hunts_sampled :
    let s := threeHunts.state.store
    s.recentDone (.repo .hunt) = [3, 2, 1] ∧ s.kindChain (.repo .hunt) 1 = [1, 0] ∧
      s.kindTokens (.repo .hunt) = [1, 1, 5, 1] ∧
      (s.kindTokenHistory (.repo .hunt)).Perm [1, 5, 2] := by
  have hdone : threeHunts.state.store.recentDone (.repo .hunt) = [3, 2, 1] ∧
      threeHunts.state.store.kindChain (.repo .hunt) 1 = [1, 0] ∧
      threeHunts.state.store.kindTokens (.repo .hunt) = [1, 1, 5, 1] ∧
      [3, 2, 1].map (fun head => threeHunts.state.store.tokensOf
        (threeHunts.state.store.kindChain (.repo .hunt) head)) = [1, 5, 2] := by decide +kernel
  have hreach := reachable_threeHunts
  generalize threeHunts = x at *
  have hsamples := (kindTokenHistory_samples hreach (.repo .hunt)).2.1
  rw [hdone.1, if_pos (by decide), hdone.2.2.2] at hsamples
  exact ⟨hdone.1, hdone.2.1, hdone.2.2.1, hsamples⟩

def scanningTwo : Outside where
  rotation := some (.depUpdate, 0)
  scan := some {
    entries := [some (.depUpdate, { sampleInsert with fingerprint := ['x'] }),
      some (.depUpdate, { sampleInsert with fingerprint := ['y'] })]
    proposed := [['x'], ['y']], unchecked := [], moves := [] }

def queueNew (fid : Nat) (s : Store) : Store := s.applyVerdict fid .new .queued none

def isChainLive : {β : Type} → Call β → Bool
  | _, .store (.chainLive _) => true
  | _, _ => false

/-- The 66th attempt at a fix is done, its tree still there. -/
def longFix : Config daemon :=
  playDaemon [{ stops := isChainLive }]
    ⟨runPhase (.dispatch (.resume (heldPlan resumeChainMaxDepth))),
      heldChain .queued (resumeChainMaxDepth + 1), heldTrees⟩

theorem reachable_longFix : daemon.Reachable longFix :=
  reachable_playDaemon ((reachable_requeued (reachable_heldChain (Nat.le_refl _))).runs
    (runs_select (Nat.le_refl _) rfl))

def threeFixes : Config daemon :=
  playDaemon (List.replicate 8 routine) (requested (queueNew 2) (requested (queueNew 1)
    (playDaemon (List.replicate 5 scanningTwo) ⟨runPhase .startup, longFix.state⟩)))

theorem reachable_threeFixes : daemon.Reachable threeFixes :=
  reachable_playDaemon (reachable_requested (r := .verdict 2 .queued none)
    (reachable_requested (r := .verdict 1 .queued none)
      (reachable_playDaemon (reachable_longFix.step (.crash trivial)))
      (.verdict rfl rfl (by decide) (by decide))) (.verdict rfl rfl (by decide) (by decide)))

/-- Before any fix is done, what a capped one spent is the history; and of the 66 attempts at one
fix the first is left out of its sample. -/
theorem capped_fix_sampled :
    (daemon.Reachable pausedFix ∧
      pausedFix.state.store.recentDone (.finding .fix) = [] ∧
      pausedFix.state.store.kindTokenHistory (.finding .fix) = [1]) ∧
    daemon.Reachable threeFixes ∧
      threeFixes.state.store.recentDone (.finding .fix) = [67, 66, 65] ∧
      threeFixes.state.store.kindTokenHistory (.finding .fix) = [1, 1, 65] ∧
      ((List.range 65).all fun id =>
        threeFixes.state.store.kindParent (.finding .fix) (id + 1) = some id) = true ∧
      threeFixes.state.store.tokensOf (List.range 66) = 66 :=
  ⟨⟨reachable_pausedFix, by decide +kernel, by decide +kernel⟩, reachable_threeFixes,
    by decide +kernel⟩

end Hunter
