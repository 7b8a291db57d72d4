import Hunter.Guarantees.DepScans
import Hunter.Guarantees.LiveTrees
set_option autoImplicit false

namespace Hunter
open Effect

/-! Every attempt at a fix works on the branch its chain's tree was made on. -/

theorem dash_notMem_nat (n : Nat) : '-' ∉ Text.nat n := by
  intro h
  have hdigit := Nat.isDigit_of_mem_toDigits (by omega) (by omega) h
  revert hdigit
  decide

theorem nat_injective {m n : Nat} (h : Text.nat m = Text.nat n) : m = n := by
  have hvalue := congrArg (fun digits => Nat.ofDigitChars 10 digits 0) h
  simpa [Text.nat, Nat.ofDigitChars_ten_toDigits] using hvalue

theorem digits_fixBranch (f : Nat) (x : Finding) :
    ((fixBranch f x).reverse.takeWhile (· ≠ '-')) = (Text.nat f).reverse := by
  rw [fixBranch, List.reverse_append, List.reverse_cons, List.append_assoc,
    List.takeWhile_append_of_pos]
  · simp
  · intro c hc
    rw [decide_eq_true_eq]
    rintro rfl
    exact dash_notMem_nat f (List.mem_reverse.1 hc)

theorem fixBranch_injective {f g : Nat} {x y : Finding} (h : fixBranch f x = fixBranch g y) :
    f = g := by
  have hdigits := digits_fixBranch f x
  rw [h, digits_fixBranch] at hdigits
  exact (nat_injective (List.reverse_injective hdigits)).symm

theorem fixBranch_congr {f : Nat} {x y : Finding} (htype : x.type = y.type)
    (hslug : slug x.report.summary = slug y.report.summary) : fixBranch f x = fixBranch f y := by
  rw [fixBranch, htype, hslug, fixBranch]

/-- The summary a statement gives finding `f`, where it rewrites it. -/
def StoreCall.rewords (f : Nat) (x : Finding) : {β : Type} → StoreCall β → Option Text
  | _, .updateFindingAnalysis g fields => if g = f then fields.summary else none
  | _, .reopenSuppressed g row =>
    if g = f && x.status.isSuppressed then some row.summary else none
  | _, .refreshDepUpdate g row => if g = f && x.refreshable then some row.summary else none
  | _, _ => none

/-- The branch names of the findings whose fix is under way stay. -/
def StoreCall.keepsBranches {β : Type} (s : Store) (c : StoreCall β) : Bool :=
  (rows s.findings).all fun row =>
    !s.liveFix row.id ||
      (c.rewords row.id row.val).all fun summary => slug summary = slug row.val.report.summary

theorem Store.liveFix_iff {s : Store} {f : Nat} : s.liveFix f = true ↔
    ∃ id j, s.job? id = some j ∧ j.kind = .finding .fix ∧ j.findingId = some f ∧
      s.live id j = true := by
  simp only [Store.liveFix, List.any_eq_true, mem_rows, Bool.and_eq_true, decide_eq_true_eq]
  constructor
  · rintro ⟨row, hrow, ⟨hkind, hf⟩, hlive⟩
    exact ⟨row.id, row.val, hrow, hkind, hf, hlive⟩
  · rintro ⟨id, j, hj, hkind, hf, hlive⟩
    exact ⟨⟨id, j⟩, hj, ⟨hkind, hf⟩, hlive⟩

section
variable {β : Type} {c : StoreCall β} {s s' : Store} {b : β} {f : Nat} {x x' : Finding}

theorem report_eq (h : c.apply s = some (b, s')) (hx : s.finding? f = some x)
    (hx' : s'.finding? f = some x') (hkeeps : ¬ c.rewrites f) :
    x'.type = x.type ∧ x'.report = x.report := by
  obtain ⟨y, hy, hchange⟩ := StoreCall.edits h f x hx
  cases hx'.symm.trans hy
  exact ⟨hchange.type, hchange.report.resolve_right hkeeps⟩

/-- A statement's new summary is the one it rewrites the finding with, if it does. -/
theorem summary_eq (h : c.apply s = some (b, s')) (hx : s.finding? f = some x)
    (hx' : s'.finding? f = some x') :
    x'.report.summary = (c.rewords f x).getD x.report.summary := by
  have hother : ¬ c.rewrites f → c.rewords f x = none →
      x'.report.summary = (c.rewords f x).getD x.report.summary := by
    intro hkeeps hnone
    rw [(report_eq h hx hx' hkeeps).2, hnone]
    rfl
  cases c with
  | updateFindingAnalysis g fields =>
    by_cases hg : g = f
    · subst hg
      cases h
      rw [Store.updateFindingAnalysis, Store.finding?_modifyFinding, if_pos rfl, hx] at hx'
      cases hx'
      simp [StoreCall.rewords, FindingAnalysisUpdate.apply]
    · exact hother hg (by simp [StoreCall.rewords, hg])
  | reopenSuppressed g row =>
    by_cases hg : g = f
    · subst hg
      cases h
      rw [Store.reopenSuppressed, Store.finding?_updateFindingIf, if_pos rfl, hx] at hx'
      obtain rfl := Option.some.inj hx'
      by_cases hsuppressed : x.status.isSuppressed = true
      · simp [StoreCall.rewords, hsuppressed, FindingInsert.reopen]
      · simp [StoreCall.rewords, hsuppressed]
    · exact hother hg (by simp [StoreCall.rewords, hg])
  | refreshDepUpdate g row =>
    by_cases hg : g = f
    · subst hg
      cases h
      rw [Store.refreshDepUpdate, Store.finding?_updateFindingIf, if_pos rfl, hx] at hx'
      obtain rfl := Option.some.inj hx'
      dsimp only
      split
      · rename_i hupdate
        have hrefreshable := (Bool.and_eq_true_iff.1 hupdate).1
        simp [StoreCall.rewords, hrefreshable, Finding.refreshDep, FindingInsert.refresh]
      · rename_i hkeep
        by_cases hrefreshable : x.refreshable = true
        · -- the row already reads as the scan has it
          have hsame : row.refresh x.report = x.report := by
            by_contra hne
            exact hkeep (by simp [hrefreshable, hne])
          have hsummary : row.summary = x.report.summary := by
            change (row.refresh x.report).summary = _
            rw [hsame]
          simp [StoreCall.rewords, hrefreshable, hsummary]
        · simp [StoreCall.rewords, hrefreshable]
    · exact hother hg (by simp [StoreCall.rewords, hg])
  | _ => exact hother id rfl

/-- The branch of a finding whose fix is under way stays, where the statement keeps its name. -/
theorem fixBranch_kept (h : c.apply s = some (b, s')) (hx : s.finding? f = some x)
    (hx' : s'.finding? f = some x')
    (hkeeps : ¬ c.rewrites f ∨ s.liveFix f = true ∧ c.keepsBranches s = true) :
    fixBranch f x' = fixBranch f x := by
  obtain ⟨y, hy, hchange⟩ := StoreCall.edits h f x hx
  cases hx'.symm.trans hy
  refine fixBranch_congr hchange.type ?_
  rcases hkeeps with hkeeps | ⟨hlive, hkeeps⟩
  · rw [hchange.report.resolve_right hkeeps]
  · rw [summary_eq h hx hx']
    have hrow := List.all_eq_true.1 hkeeps ⟨f, x⟩ (mem_rows.2 hx)
    simp only [hlive, Bool.not_true, Bool.false_or, Option.all_eq_true, decide_eq_true_eq] at hrow
    cases hrewords : c.rewords f x with
    | none => rfl
    | some summary => exact hrow summary hrewords

end

/-- The trees of the chain are on the branch the finding names now. -/
def OnBranch (w : World) (root f : Nat) : Prop :=
  ∀ t ∈ w.trees, t.origin = root →
    ∃ x commit, w.store.finding? f = some x ∧ t.spec = .branch (fixBranch f x) commit

/-- The job is on record, and its chain's trees are on the finding's branch. -/
structure Rooted (w : World) (p f : Nat) : Prop where
  job : ∃ j, w.store.job? p = some j
  branch : ∀ root depth, w.store.Below root depth p → OnBranch w root f

/-- What is known of trees: each was made for a chain's first job, and where the chain fixes a
finding it is on its branch. -/
structure Branches (a : Memory) (w : World) : Prop where
  roots : ∀ t ∈ w.trees, ∃ j, w.store.job? t.origin = some j ∧ j.resumedFrom = none
  fresh : ∀ p of, Fact.fresh p of ∈ a → w.store.jobs.length = p + 1 ∧
    (∀ t ∈ w.trees, t.origin ≠ p) ∧ ∃ j, w.store.job? p = some j ∧ fixOf j.kind j.findingId = of
  rooted : ∀ p f, Fact.rooted p f ∈ a → Rooted w p f
  agrees : ∀ f origin, Fact.agrees f origin ∈ a → OnBranch w origin f
  live : ∀ id j f, w.store.job? id = some j → j.kind = .finding .fix → j.findingId = some f →
    w.store.live id j = true → Rooted w id f

section
variable {β : Type} {c : StoreCall β} {w : World} {s' : Store} {b : β} {a : Memory}

theorem below_back {root depth id : Nat} {j : Job} (h : c.apply w.store = some (b, s'))
    (hfair : c.fairReason) (hdescends : w.store.Descends) (hj : w.store.job? id = some j)
    (hbelow : s'.Below root depth id) : w.store.Below root depth id := by
  have hold : ∀ {k j' jk}, w.store.job? k = some jk → s'.job? k = some j' →
      jk.resumedFrom = j'.resumedFrom := by
    intro k j' jk hk hj'
    obtain ⟨j'', hj'', hchange⟩ := StoreCall.jobEdits h hfair hk
    cases hj'.symm.trans hj''
    exact hchange.resumedFrom.symm
  induction hbelow generalizing j with
  | first hj' hfrom => exact .first hj ((hold hj hj').trans hfrom)
  | @link depth id p j' hj' hfrom _ ih =>
    have hfrom' := (hold hj hj').trans hfrom
    have hlt := hdescends id j p hj hfrom'
    have hid := Store.job?_lt hj
    exact .link hj hfrom' (ih (List.getElem?_eq_getElem (by omega)))

theorem OnBranch.kept {root f : Nat} (hbranch : OnBranch w root f)
    (h : c.apply w.store = some (b, s'))
    (hkeeps : ¬ c.rewrites f ∨ w.store.liveFix f = true ∧ c.keepsBranches w.store = true) :
    OnBranch { w with store := s' } root f := by
  intro t ht hroot
  obtain ⟨x, commit, hx, hspec⟩ := hbranch t ht hroot
  obtain ⟨x', hx', -⟩ := StoreCall.edits h f x hx
  refine ⟨x', commit, hx', ?_⟩
  rw [fixBranch_kept h hx hx' hkeeps]
  exact hspec

theorem Rooted.kept {p f : Nat} (hrooted : Rooted w p f) (h : c.apply w.store = some (b, s'))
    (hfair : c.fairReason) (hdescends : w.store.Descends)
    (hkeeps : ¬ c.rewrites f ∨ w.store.liveFix f = true ∧ c.keepsBranches w.store = true) :
    Rooted { w with store := s' } p f := by
  obtain ⟨j, hj⟩ := hrooted.job
  obtain ⟨j', hj', -⟩ := StoreCall.jobEdits h hfair hj
  refine ⟨⟨j', hj'⟩, fun root depth hbelow => ?_⟩
  exact (hrooted.branch root depth (below_back h hfair hdescends hj hbelow)).kept h hkeeps

/-- A new job's chain is the one it continues, or has no tree yet. -/
theorem rooted_inserted {id f : Nat} {j : Job} (hbranches : Branches a w)
    (h : c.apply w.store = some (b, s')) (hfair : c.fairReason) (hdescends : w.store.Descends)
    (hinsert : c.inserts w.store id j b) (hj : s'.job? id = some j)
    (hfrom : ∀ p, c.continues = some p → Rooted w p f) :
    Rooted { w with store := s' } id f := by
  have hkeeps : ¬ c.rewrites f := by
    cases c with
    | createJob => exact fun hrewrites => hrewrites
    | _ => exact hinsert.elim
  have hid := StoreCall.inserts_id hinsert
  refine ⟨⟨j, hj⟩, fun root depth hbelow => ?_⟩
  cases hbelow with
  | first hj' hnone =>
    intro t ht horigin
    obtain ⟨k, hk, -⟩ := hbranches.roots t ht
    have hlt := Store.job?_lt hk
    omega
  | @link depth id p j' hj' hp hbelow =>
    cases hj.symm.trans hj'
    have hrooted := hfrom p ((StoreCall.inserts_resumedFrom hinsert).symm.trans hp)
    obtain ⟨k, hk⟩ := hrooted.job
    exact (hrooted.branch root depth (below_back h hfair hdescends hk hbelow)).kept h
      (Or.inl hkeeps)

theorem not_rewrites {f p : Nat} (hforget : ¬ c.forgets b (.rooted p f)) : ¬ c.rewrites f := by
  intro hrewrites
  refine hforget ?_
  cases c with
  | updateFindingAnalysis | reopenSuppressed | refreshDepUpdate =>
    cases hrewrites
    simp [StoreCall.forgets, Fact.onBranch]
  | _ => exact hrewrites.elim

theorem forgets_agrees {f origin p : Nat} (h : c.forgets b (.rooted p f)) :
    c.forgets b (.agrees f origin) := by
  cases c <;> simp_all [StoreCall.forgets, Fact.onStatus, Fact.onBranch, Fact.isHeld, Fact.isOffer,
    Fact.onSpend, Fact.onAnchor, Fact.onHold, Fact.onCreate, Fact.onEnd, Fact.onWatermark,
    Fact.isAsked, Fact.isPinned, Fact.isMarked, Fact.isFiled, Fact.isOneShot]

/-- A chain is found at its first job, or where no tree was made. -/
theorem below_of_mem_ancestry {s : Store} {fuel k id : Nat} {jk : Job} (hk : s.job? k = some jk)
    (hfirst : jk.resumedFrom = none) (hmem : k ∈ s.ancestry fuel id) :
    ∃ depth, s.Below k depth id := by
  induction fuel generalizing id with
  | zero =>
    rw [Store.ancestry] at hmem
    split at hmem
    · obtain rfl : k = id := by simpa using hmem
      exact ⟨0, .first hk hfirst⟩
    · cases hmem
  | succ fuel ih =>
    rw [Store.ancestry] at hmem
    split at hmem
    · cases hmem
    · rename_i j hj
      rcases List.mem_cons.1 hmem with rfl | hmem
      · exact ⟨0, .first hk hfirst⟩
      · split at hmem
        · cases hmem
        · rename_i p hp
          obtain ⟨depth, hbelow⟩ := ih hmem
          exact ⟨depth + 1, .link hj hp hbelow⟩

theorem onBranch_origin {p f : Nat} (hbranches : Branches a w) (hrooted : Rooted w p f) :
    OnBranch w (w.store.resumeOriginJob p) f := by
  intro t ht horigin
  obtain ⟨k, hk, hfirst⟩ := hbranches.roots t ht
  obtain ⟨j, hj⟩ := hrooted.job
  obtain ⟨m, hm⟩ := Option.ne_none_iff_exists'.1
    (mt List.min?_eq_none_iff.1 (Store.ancestry_ne_nil resumeChainMaxDepth hj))
  have hmem := List.min?_mem hm
  rw [Store.resumeOriginJob, hm, Option.getD_some] at horigin
  rw [← horigin] at hmem
  obtain ⟨depth, hbelow⟩ := below_of_mem_ancestry hk hfirst hmem
  exact hrooted.branch t.origin depth hbelow t ht rfl

theorem rooted_learned {p f : Nat} (h : c.apply w.store = some (b, s'))
    (hdescends : w.store.Descends) (hbranches : Branches a w)
    (hlearn : c.learns a b (.rooted p f)) : Rooted { w with store := s' } p f := by
  cases c with
  | listResumableJobs =>
    cases h
    obtain ⟨row, hrow, htells⟩ := hlearn
    rw [mem_listResumableJobs] at hrow
    simp only [Store.resumable, Bool.and_eq_true] at hrow
    obtain ⟨hrow, ⟨⟨⟨hopen, -⟩, -⟩, -⟩⟩ := hrow
    rcases htells with h | h | h | ⟨file, -, h⟩ | ⟨k, g, hkind, hg, h⟩
    · cases h
    · cases h
    · cases h
    · cases h
    · split at h
      · rename_i hfix
        cases h
        subst hfix
        exact hbranches.live row.id row.val f hrow hkind hg
          (Store.live_iff.2 (Or.inr (Store.openSuspension_iff.1 hopen)))
      · cases k <;> cases h
  | createJob kind repoId findingId state resumedFrom =>
    obtain ⟨created, rfl, hx⟩ := hlearn
    obtain ⟨-, rfl, hfrom⟩ : fixOf kind findingId = some f ∧ p = created.id ∧
        ∀ q, resumedFrom = some q → Fact.rooted q f ∈ a := by
      simpa using hx
    obtain ⟨hid, -, hnew, -⟩ := Store.createJob_spec (StoreCall.created_of_apply h)
    rw [← hid] at hnew
    exact rooted_inserted hbranches h trivial hdescends ⟨hid, rfl, rfl⟩ hnew
      fun q hq => hbranches.rooted q f (hfrom q hq)
  | findingsWithStatus =>
    obtain ⟨row, -, ⟨-, h⟩ | ⟨-, h⟩ | ⟨-, h⟩⟩ := hlearn
    · cases h
    · cases h
    · split at h <;> cases h
  | _ => simp [StoreCall.learns] at hlearn

theorem agrees_learned {f origin : Nat} (h : c.apply w.store = some (b, s'))
    (hbranches : Branches a w) (hlearn : c.learns a b (.agrees f origin)) :
    OnBranch { w with store := s' } origin f := by
  cases c with
  | resumeOriginJob p =>
    cases h
    rcases hlearn with ⟨g, hrooted, heq⟩ | ⟨-, heq⟩
    · cases heq
      exact onBranch_origin hbranches (hbranches.rooted p f hrooted)
    · cases heq
  | listResumableJobs =>
    obtain ⟨row, -, htells⟩ := hlearn
    cases offerTells_listed htells
  | findingsWithStatus =>
    obtain ⟨row, -, htells⟩ := hlearn
    cases tells_listed htells
  | _ => simp [StoreCall.learns] at hlearn

theorem fresh_learned {p : Nat} {of : Option Nat} (h : c.apply w.store = some (b, s'))
    (hbranches : Branches a w) (hlearn : c.learns a b (.fresh p of)) :
    s'.jobs.length = p + 1 ∧ (∀ t ∈ w.trees, t.origin ≠ p) ∧
      ∃ j, s'.job? p = some j ∧ fixOf j.kind j.findingId = of := by
  cases c with
  | createJob kind repoId findingId state resumedFrom =>
    obtain ⟨created, rfl, hx⟩ := hlearn
    obtain ⟨-, rfl, rfl⟩ : resumedFrom = none ∧ p = created.id ∧ of = fixOf kind findingId := by
      simpa using hx
    obtain ⟨hid, hlen, hnew, -⟩ := Store.createJob_spec (StoreCall.created_of_apply h)
    rw [← hid] at hnew hlen
    refine ⟨hlen, fun t ht horigin => ?_, _, hnew, rfl⟩
    obtain ⟨k, hk, -⟩ := hbranches.roots t ht
    have hlt := Store.job?_lt hk
    omega
  | listResumableJobs =>
    obtain ⟨row, -, htells⟩ := hlearn
    cases offerTells_listed htells
  | findingsWithStatus =>
    obtain ⟨row, -, htells⟩ := hlearn
    cases tells_listed htells
  | _ => simp [StoreCall.learns] at hlearn

/-- A live fix is one that was live, one held just now, or a new one. -/
theorem rooted_live {id f : Nat} {j' : Job} (h : c.apply w.store = some (b, s'))
    (hallow : c.allowed a) (hknown : Known a w) (hbranches : Branches a w)
    (hkeeps : c.keepsBranches w.store = true) (hj' : s'.job? id = some j')
    (hkind : j'.kind = .finding .fix) (hf : j'.findingId = some f)
    (hlive : s'.live id j' = true) : Rooted { w with store := s' } id f := by
  have hfair := fair_of_allowed hallow
  rcases StoreCall.job_cases h hfair hj' with ⟨j, hj, hchange⟩ | hinsert
  · rw [hchange.kind] at hkind
    rw [hchange.findingId] at hf
    rcases live_back h hallow hknown.facts hj hchange hlive with hwas | ⟨hblocks, -⟩
    · exact (hbranches.live id j f hj hkind hf hwas).kept h hfair hknown.descends
        (Or.inr ⟨Store.liveFix_iff.2 ⟨id, j, hj, hkind, hf, hwas⟩, hkeeps⟩)
    · cases c with
      | blockFixJob g k report =>
        obtain rfl : k = id := hblocks
        obtain ⟨s1, hblock, -⟩ := Option.map_eq_some_iff.1 h
        obtain ⟨j0, -, hj0, -, hg, -⟩ := Store.blockFixJob_spec hblock
        cases hj.symm.trans hj0
        cases hf.symm.trans hg
        exact (hbranches.rooted k f hallow.1).kept h hfair hknown.descends (Or.inl fun h => h)
      | _ => exact hblocks.elim
  · refine rooted_inserted hbranches h hfair hknown.descends hinsert hj' fun p hp => ?_
    cases c with
    | createJob kind repoId findingId state resumedFrom =>
      obtain ⟨-, -, rfl⟩ := hinsert
      obtain rfl : kind = .finding .fix := hkind
      obtain rfl : findingId = some f := hf
      obtain ⟨g, finding, hg, -, -, -, hrooted⟩ := hallow.2.work
      cases hg
      exact hbranches.rooted p f (hrooted p hp)
    | _ => exact hinsert.elim

theorem branches_store (h : c.apply w.store = some (b, s')) (hallow : c.allowed a)
    (hknown : Known a w) (hbranches : Branches a w) (hkeeps : c.keepsBranches w.store = true) :
    Branches (a.next (.store c) (.ok b)) { w with store := s' } := by
  have hfair := fair_of_allowed hallow
  refine ⟨fun t ht => ?_, ?_, ?_, ?_, ?_⟩
  · obtain ⟨j, hj, hfirst⟩ := hbranches.roots t ht
    obtain ⟨j', hj', hchange⟩ := StoreCall.jobEdits h hfair hj
    exact ⟨j', hj', hchange.resumedFrom.trans hfirst⟩
  · rintro p of (⟨hfresh, hforget⟩ | hlearn)
    · obtain ⟨hlen, hnone, j, hj, hof⟩ := hbranches.fresh p of hfresh
      obtain ⟨j', hj', hchange⟩ := StoreCall.jobEdits h hfair hj
      refine ⟨?_, hnone, j', hj', by rw [hchange.kind, hchange.findingId]; exact hof⟩
      rcases StoreCall.inserted h with hsame | ⟨-, jn, hinsert, -⟩
      · exact hsame.trans hlen
      · exact absurd (forgets_of_inserts hinsert rfl) hforget
    · have hlearned := fresh_learned h hbranches hlearn
      exact hlearned
  · rintro p f (⟨hrooted, hforget⟩ | hlearn)
    · exact (hbranches.rooted p f hrooted).kept h hfair hknown.descends
        (Or.inl (not_rewrites hforget))
    · exact rooted_learned h hknown.descends hbranches hlearn
  · rintro f origin (⟨hagrees, hforget⟩ | hlearn)
    · exact (hbranches.agrees f origin hagrees).kept h
        (Or.inl (not_rewrites fun hrooted => hforget (forgets_agrees (p := origin) hrooted)))
    · exact agrees_learned h hbranches hlearn
  · exact fun id j f hj hkind hf hlive =>
      rooted_live h hallow hknown hbranches hkeeps hj hkind hf hlive

end

section
variable {a a' : Memory} {w w' : World}

theorem OnBranch.mono {root f : Nat} (h : OnBranch w root f) (hstore : w'.store = w.store)
    (htrees : ∀ t ∈ w'.trees, t ∈ w.trees) : OnBranch w' root f := by
  intro t ht hroot
  rw [hstore]
  exact h t (htrees t ht) hroot

theorem Rooted.mono {p f : Nat} (h : Rooted w p f) (hstore : w'.store = w.store)
    (htrees : ∀ t ∈ w'.trees, t ∈ w.trees) : Rooted w' p f := by
  refine ⟨by rw [hstore]; exact h.job, fun root depth hbelow => ?_⟩
  rw [hstore] at hbelow
  exact (h.branch root depth hbelow).mono hstore htrees

theorem Branches.mono (h : Branches a w) (hstore : w'.store = w.store)
    (htrees : ∀ t ∈ w'.trees, t ∈ w.trees)
    (hfresh : ∀ p of, Fact.fresh p of ∈ a' → Fact.fresh p of ∈ a)
    (hrooted : ∀ p f, Fact.rooted p f ∈ a' → Fact.rooted p f ∈ a)
    (hagrees : ∀ f origin, Fact.agrees f origin ∈ a' → Fact.agrees f origin ∈ a) :
    Branches a' w' where
  roots t ht := by
    rw [hstore]
    exact h.roots t (htrees t ht)
  fresh p of hp := by
    obtain ⟨hlen, hnone, hjob⟩ := h.fresh p of (hfresh p of hp)
    rw [hstore]
    exact ⟨hlen, fun t ht => hnone t (htrees t ht), hjob⟩
  rooted p f hp := (h.rooted p f (hrooted p f hp)).mono hstore htrees
  agrees f origin hf := (h.agrees f origin (hagrees f origin hf)).mono hstore htrees
  live id j f hj hkind hf hlive := by
    rw [hstore] at hj hlive
    exact (h.live id j f hj hkind hf hlive).mono hstore htrees

theorem branches_made {id : Nat} {spec : TreeSpec} {sha : Text}
    (hallow : (TreeCall.create id spec).allowed a) (hknown : Known a w)
    (hbranches : Branches a w) :
    Branches (a.next (.tree (.create id spec)) (.ok sha))
      { w with trees := { origin := id, spec := spec } :: w.trees } := by
  obtain ⟨of, hfresh, hspec⟩ := hallow
  obtain ⟨hlen, hnone, j, hj, hof⟩ := hbranches.fresh id of hfresh
  obtain ⟨j0, hj0, hfirst⟩ := hknown.facts _ hfresh
  cases hj.symm.trans hj0
  have hmade : ∀ f, of = some f →
      OnBranch { w with trees := { origin := id, spec := spec } :: w.trees } id f := by
    rintro f rfl t ht horigin
    obtain ⟨finding, commit, hrow, rfl⟩ := hspec f rfl
    obtain ⟨x, hx, -, htype, hreport⟩ := hknown.facts _ hrow
    rcases List.mem_cons.1 ht with rfl | ht
    · exact ⟨x, commit, hx, by rw [fixBranch_congr htype (by rw [hreport])]⟩
    · exact absurd horigin (hnone t ht)
  have hof' : ∀ g, Fact.fresh id (some g) ∈ a → of = some g := by
    intro g hg
    obtain ⟨-, -, j1, hj1, hof1⟩ := hbranches.fresh id (some g) hg
    cases hj.symm.trans hj1
    exact hof.symm.trans hof1
  have hchain : ∀ {root depth k : Nat}, w.store.Below root depth k → root = id → k = id := by
    intro root depth k hbelow hroot
    obtain ⟨jk, hjk⟩ := hbelow.exists_job
    have hlt := Store.job?_lt hjk
    have hle := hbelow.le hknown.descends
    split at hle <;> omega
  refine ⟨fun t ht => ?_, ?_, ?_, ?_, fun k jk f hjk hkind hf hlive => ?_⟩
  · rcases List.mem_cons.1 ht with rfl | ht
    · exact ⟨j, hj, hfirst⟩
    · exact hbranches.roots t ht
  · rintro p of' (⟨-, hforget⟩ | ⟨sha', -, h | ⟨f, -, h | h⟩⟩)
    · exact absurd ⟨rfl, rfl⟩ hforget
    all_goals cases h
  · rintro p f (⟨-, hforget⟩ | ⟨sha', -, h | ⟨g, hg, h | h⟩⟩)
    · exact absurd ⟨rfl, rfl⟩ hforget
    · cases h
    · cases h
      refine ⟨⟨j, hj⟩, fun root depth hbelow => ?_⟩
      have hroot : root = id := by
        cases hbelow with
        | first => rfl
        | link hj' hfrom => 
          cases hj.symm.trans hj'
          cases hfirst.symm.trans hfrom
      rw [hroot]
      exact hmade f (hof' f hg)
    · cases h
  · rintro f origin (⟨-, hforget⟩ | ⟨sha', -, h | ⟨g, hg, h | h⟩⟩)
    · exact absurd ⟨rfl, rfl⟩ hforget
    · cases h
    · cases h
    · cases h
      exact hmade f (hof' f hg)
  · refine ⟨⟨jk, hjk⟩, fun root depth hbelow => ?_⟩
    by_cases hroot : root = id
    · obtain rfl := hchain hbelow hroot
      cases hj.symm.trans hjk
      rw [hroot]
      exact hmade f (by rw [← hof, hkind, hf]; rfl)
    · intro t ht horigin
      rcases List.mem_cons.1 ht with rfl | ht
      · exact absurd horigin.symm hroot
      · exact (hbranches.live k jk f hjk hkind hf hlive).branch root depth hbelow t ht horigin

end

def TreeCall.Makes (w w' : World) : {β : Type} → TreeCall β → β → Prop
  | _, .create origin spec, b => (∃ e, b = .error e) ∧ w' = w ∨
      (∃ sha, b = .ok sha) ∧ w' = { w with trees := { origin := origin, spec := spec } :: w.trees }
  | _, _, _ => ∀ t ∈ w'.trees, t ∈ w.trees

def Call.Makes (w w' : World) : {β : Type} → Call β → β → Prop
  | _, .tree c, b => c.Makes w w' b
  | _, _, _ => True

theorem CallStep.makes {β : Type} {c : Call β} {w w' : World} {b : β} (h : CallStep c w b w') :
    c.Makes w w' b := by
  cases h with
  | create => exact Or.inr ⟨⟨_, rfl⟩, rfl⟩
  | createError => exact Or.inl ⟨⟨_, rfl⟩, rfl⟩
  | isDir => exact fun t ht => ht
  | release => exact fun t ht => (List.mem_filter.1 ht).1
  | read c w b hreads => cases c <;> first | exact fun t ht => ht | cases hreads
  | _ => trivial

def TreeCall.makesTree : {β : Type} → TreeCall β → Bool
  | _, .create _ _ => true
  | _, _ => false

theorem TreeCall.makesTree_of_learns {β : Type} {a : Memory} {c : TreeCall β} {b : β} {x : Fact}
    (h : c.learns a b x) (hx : x.isTree = true) : c.makesTree = true := by
  cases c with
  | create => rfl
  | diffNames =>
    obtain ⟨-, f, -, rfl⟩ := h
    cases hx
  | history =>
    obtain ⟨-, rfl⟩ := h
    cases hx
  | prompt id brief =>
    cases brief with
    | hunt range => obtain ⟨-, rfl | rfl⟩ := h <;> cases hx
    | _ => exact h.elim
  | runWorker =>
    obtain ⟨rr, -, rfl⟩ := h
    cases hx
  | ledgerUsage =>
    obtain ⟨file, tokens, -, rfl⟩ := h
    cases hx
  | findingsFile =>
    cases h
    cases hx
  | _ => exact h.elim

/-- Whether the findings whose fix is under way keep their branch names. -/
def Call.keepsBranches (w : World) : {β : Type} → Call β → Bool
  | _, .store c => c.keepsBranches w.store
  | _, _ => true

theorem branches_call {β : Type} {c : Call β} {a : Memory} {w w' : World} {b : β}
    (hallow : c.allowed a) (hknown : Known a w) (hbranches : Branches a w)
    (hkeeps : c.keepsBranches w = true) (h : CallStep c w b w') : Branches (a.next c b) w' := by
  cases c with
  | ask q =>
    obtain rfl := h.leaves
    rw [next_ask]
    exact hbranches
  | store c =>
    rcases h.leaves with ⟨b', s', rfl, happly, rfl⟩ | ⟨⟨e, rfl⟩, rfl⟩
    · exact branches_store happly hallow hknown hbranches hkeeps
    · exact hbranches.mono rfl (fun t ht => ht) (fun _ _ hx => hx.elim And.left False.elim)
        (fun _ _ hx => hx.elim And.left False.elim) fun _ _ hx => hx.elim And.left False.elim
  | tree c =>
    have hstore : w'.store = w.store := h.leaves
    have hmakes := h.makes
    have hknew : c.makesTree = false → ∀ x, x.isTree = true → x ∈ a.next (.tree c) b → x ∈ a := by
      rintro hnone x htree (⟨hx, -⟩ | hlearn)
      · exact hx
      · cases hnone.symm.trans (TreeCall.makesTree_of_learns hlearn htree)
    cases c with
    | create id spec =>
      rcases hmakes with ⟨⟨e, rfl⟩, rfl⟩ | ⟨⟨sha, rfl⟩, rfl⟩
      · refine hbranches.mono rfl (fun t ht => ht) ?_ ?_ ?_
        all_goals rintro _ _ (⟨hx, -⟩ | ⟨sha, hok, -⟩)
        all_goals first | exact hx | cases hok
      · exact branches_made hallow hknown hbranches
    | _ =>
      exact hbranches.mono hstore hmakes (fun _ _ => hknew rfl _ rfl) (fun _ _ => hknew rfl _ rfl)
        fun _ _ => hknew rfl _ rfl

theorem branches_env {a : Memory} {w w' : World} (hbranches : Branches a w)
    (henv : EnvStep w w') : Branches a w' := by
  cases henv with
  | treeLost =>
    exact hbranches.mono rfl (fun t ht => (List.mem_filter.1 ht).1) (fun _ _ hx => hx)
      (fun _ _ hx => hx) fun _ _ hx => hx
  | @request r s' haccept =>
    have hjob : ∀ p, s'.job? p = w.store.job? p := fun p => by
      rw [Store.job?, haccept.jobs, Store.job?]
    have hlive : ∀ id j, s'.live id j = w.store.live id j := fun id j => by
      simp only [Store.live, Store.hasSuccessor, haccept.jobs]
    have hbelow : ∀ {root depth id}, s'.Below root depth id → w.store.Below root depth id := by
      intro root depth id h
      induction h with
      | first hj hfirst => exact .first ((hjob _).symm.trans hj) hfirst
      | link hj hfrom _ ih => exact .link ((hjob _).symm.trans hj) hfrom ih
    have hbranch : ∀ {root f}, OnBranch w root f → OnBranch { w with store := s' } root f := by
      intro root f h t ht hroot
      obtain ⟨x, commit, hx, hspec⟩ := h t ht hroot
      obtain ⟨x', hx', hchange⟩ := haccept.edits f x hx
      refine ⟨x', commit, hx', hspec.trans ?_⟩
      rw [fixBranch_congr hchange.type (by rw [hchange.report])]
    have hrooted : ∀ {p f}, Rooted w p f → Rooted { w with store := s' } p f := fun h =>
      ⟨h.job.imp fun j hj => (hjob _).trans hj,
        fun root depth hchain => hbranch (h.branch root depth (hbelow hchain))⟩
    refine ⟨fun t ht => ?_, fun p of hp => ?_, fun p f hp => hrooted (hbranches.rooted p f hp),
      fun f origin hf => hbranch (hbranches.agrees f origin hf), fun id j f hj hkind hf h => ?_⟩
    · obtain ⟨j, hj, hfirst⟩ := hbranches.roots t ht
      exact ⟨j, (hjob _).trans hj, hfirst⟩
    · obtain ⟨hlen, hnone, j, hj, hof⟩ := hbranches.fresh p of hp
      exact ⟨(congrArg List.length haccept.jobs).trans hlen, hnone, j, (hjob p).trans hj, hof⟩
    · rw [hlive] at h
      exact hrooted (hbranches.live id j f ((hjob id).symm.trans hj) hkind hf h)

theorem branches_init {w : World}
    (hw : w = { store := { repos := [], findings := [], jobs := [] }, trees := [] }) :
    Branches ∅ w := by
  subst hw
  refine ⟨fun _ ht => ?_, fun _ _ h => h.elim, fun _ _ h => h.elim, fun _ _ h => h.elim,
    fun id j f hj => ?_⟩
  · cases ht
  · simp [Store.job?] at hj

theorem Branches.entry {a : Memory} {w : World} (phase : Phase) (h : Branches a w)
    (hknown : ∀ x ∈ phase.known, x = .dispatching ∨ x ∈ a) : Branches phase.known w :=
  h.mono rfl (fun _ ht => ht) (fun _ _ hx => (hknown _ hx).resolve_left nofun)
    (fun _ _ hx => (hknown _ hx).resolve_left nofun)
    fun _ _ hx => (hknown _ hx).resolve_left nofun

/-- The runs in which no statement renames the branch of a finding whose fix is under way. -/
def steadyBranches : Machine Call Text World :=
  daemon.restrict (fun c w _ _ => c.keepsBranches w = true) (fun _ _ => True) fun _ _ => True

theorem branches_invariant : Machine.InvariantUnder steadyBranches (follower.restrict _ _ _)
    Known Branches where
  init _ hw := branches_init hw
  call _ _ _ _ _ hallow hknown hbranches h _ := branches_call hallow hknown hbranches h.2 h.1
  finish _ phase _ hready _ hbranches := hbranches.entry phase hready.2
  abort _ _ _ _ hbranches := hbranches.entry .reconcile fun _ hx => hx.elim
  crash _ _ _ _ _ _ hbranches := hbranches.entry .startup fun _ hx => hx.elim
  env _ _ _ _ hbranches henv := branches_env hbranches henv.1

def TreeSpec.isOn (name : Text) : TreeSpec → Bool
  | .branch made _ => made = name
  | _ => false

/-- The branch names of one state: those its attempts at fixes compute, the one a pull request
is about to be created for, and those its trees were made on. -/
structure BranchesAgree {Φ : Type} (rest : Prog Call Text Φ) (w : World) : Prop where
  made : ∀ t ∈ w.trees, ∃ j, w.store.job? t.origin = some j ∧ j.resumedFrom = none
  attempts : ∀ id j f x, w.store.job? id = some j → j.kind = .finding .fix →
    j.findingId = some f → w.store.live id j = true → w.store.finding? f = some x →
    ∀ root depth, w.store.Below root depth id → ∀ t ∈ w.trees, t.origin = root →
      t.spec.isOn (fixBranch f x) = true
  shipped : ∀ repoId origin branch k, rest = .call (.ask (.createPr repoId origin branch)) k →
    ∀ t ∈ w.trees, t.origin = origin → t.spec.isOn branch = true
  apart : ∀ f g x y, w.store.finding? f = some x → w.store.finding? g = some y →
    fixBranch f x = fixBranch g y → f = g

theorem OnBranch.isOn {w : World} {root f : Nat} {x : Finding} (h : OnBranch w root f)
    (hx : w.store.finding? f = some x) {t : Tree} (ht : t ∈ w.trees) (hroot : t.origin = root) :
    t.spec.isOn (fixBranch f x) = true := by
  obtain ⟨y, commit, hy, hspec⟩ := h t ht hroot
  cases hx.symm.trans hy
  rw [hspec]
  exact decide_eq_true rfl

/-- Where no statement renames the branch of a finding whose fix is under way, every attempt at
a fix computes the branch its chain's tree was made on, and ships that one. -/
theorem branches_agree {x : Config steadyBranches} (hx : steadyBranches.Reachable x) :
    BranchesAgree x.rest x.state := by
  have hinvariant := (known_invariant.restrict _ _ _).and branches_invariant
  obtain ⟨a, hrest, hknown, hbranches⟩ := hinvariant.reachable hx
  refine ⟨hbranches.roots, ?_, ?_, fun f g y z _ _ => fixBranch_injective⟩
  · intro id j f y hj hkind hf hlive hy root depth hbelow t ht hroot
    exact ((hbranches.live id j f hj hkind hf hlive).branch root depth hbelow).isOn hy ht hroot
  · intro repoId origin branch k hcall t ht horigin
    rw [hcall] at hrest
    obtain ⟨f, finding, hagrees, hrow, rfl⟩ := hrest.1
    obtain ⟨y, hy, -, htype, hreport⟩ := hknown.facts _ hrow
    rw [← fixBranch_congr htype (by rw [hreport])]
    exact (hbranches.agrees f origin hagrees).isOn hy ht horigin

def steadyReply (o : Outside) : Machine.Reply Call World :=
  o.reply.within fun c w _ _ => c.keepsBranches w

theorem faithful_steadyReply (o : Outside) : steadyBranches.Faithful (steadyReply o) :=
  Machine.Faithful.within o.faithful_reply fun _ _ _ _ h => h

def isCreatePr : {β : Type} → Call β → Bool
  | _, .ask (.createPr _ _ _) => true
  | _, _ => false

def shipping : Outside := { routine with stops := isCreatePr }

theorem reachable_steadyRequested {x : Config steadyBranches} {r : Request} {s : Store → Store}
    (h : steadyBranches.Reachable x) (hr : Accepts x.state.store r (s x.state.store)) :
    steadyBranches.Reachable (requested s x) :=
  h.step (.env ⟨.request hr, trivial⟩)

def steadyQueued : Config steadyBranches :=
  requested queueVerdict (play steadyReply (List.replicate 5 hunting)
    (requested addSampleRepo ⟨steadyBranches.body steadyBranches.boot, emptyWorld⟩))

theorem reachable_steadyQueued : steadyBranches.Reachable steadyQueued :=
  reachable_steadyRequested (r := .verdict 0 .queued none)
    (reachable_play faithful_steadyReply
      (reachable_steadyRequested (r := .addRepo ['r'] ['m']) (.start rfl) .addRepo))
    (.verdict rfl rfl (by decide) (by decide))

/-- A fix stopped by the cap, resumed, and about to create its pull request. -/
def resumedShipping : Config steadyBranches :=
  play steadyReply (List.replicate 4 { run := cappedRun, committed := false } ++
    List.replicate 4 shipping) steadyQueued

theorem reachable_resumedShipping : steadyBranches.Reachable resumedShipping :=
  reachable_play faithful_steadyReply reachable_steadyQueued

theorem branches_agree_resumed : Machine.nextIs isCreatePr resumedShipping.rest = true ∧
    resumedShipping.state.trees.length = 1 ∧
    BranchesAgree resumedShipping.rest resumedShipping.state := by
  refine ⟨?_, ?_, branches_agree reachable_resumedShipping⟩
  · decide +kernel
  · decide +kernel

def rewording : Outside :=
  { scanning with
    scan := some { entries := [some (.depUpdate, { sampleInsert with summary := ['b'] })],
                   proposed := [[]], unchecked := [], moves := [] } }

/-- The finding put back behind the sweep, reported in other words, and queued again. -/
def renamedDepFix : Config daemon :=
  requested queueVerdict (playDaemon (List.replicate 2 rewording)
    (requested unqueue (playDaemon (List.replicate 2 routine) pausedDepFix)))

def renamedShipping : Config daemon := playDaemon (List.replicate 4 shipping) renamedDepFix

theorem reachable_renamedShipping : daemon.Reachable renamedShipping := by
  have hpaused : daemon.Reachable (playDaemon (List.replicate 2 routine) pausedDepFix) :=
    reachable_playDaemon (reachable_playDaemon reachable_queuedDepUpdate)
  exact reachable_playDaemon (reachable_requested (r := .verdict 0 .queued none)
    (reachable_playDaemon (reachable_requested (r := .unqueue 0) hpaused .unqueue))
    (.verdict rfl rfl (by decide) (by decide)))

/-- Whether a pull request is about to be created for another branch than its tree's. -/
def shipsElsewhere (w : World) : {β : Type} → Call β → Bool
  | _, .ask (.createPr _ origin branch) =>
    w.trees.any fun t => t.origin = origin && !t.spec.isOn branch
  | _, _ => false

/-- A resumed fix names the branch anew, and its tree is on the old one. -/
theorem branch_renamed : ¬ ∀ x : Config daemon, daemon.Reachable x →
    BranchesAgree x.rest x.state := by
  intro h
  have hnext : Machine.nextIs (shipsElsewhere renamedShipping.state) renamedShipping.rest =
      true := by decide +kernel
  have hagree := h renamedShipping reachable_renamedShipping
  obtain ⟨β, c, k, hrest, helse⟩ := Machine.exists_next hnext
  cases c with
  | store | tree => cases helse
  | ask q =>
    cases q with
    | createPr repoId origin branch =>
      obtain ⟨t, ht, hoff⟩ := List.any_eq_true.1 helse
      rw [Bool.and_eq_true, decide_eq_true_eq, Bool.not_eq_true'] at hoff
      have hon := hagree.shipped repoId origin branch k hrest t ht hoff.1
      rw [hon] at hoff
      cases hoff.2
    | _ => cases helse

end Hunter
