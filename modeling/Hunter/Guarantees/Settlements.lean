import Hunter.Alone
import Hunter.Guarantees.HandOvers
import Hunter.Guarantees.RenovateOutput
import Hunter.Replay
import Hunter.Scheduler.Scans
set_option autoImplicit false

namespace Hunter
open Effect

/-! What settling a dependency scan supersedes. -/

def fileDeps (pf : Json) : List Json :=
  match pf.asObject with
  | none => []
  | some _ => ((pf.get "deps").bind Json.asArray).getD []

def lineDeps (line : Option Json) : List Json :=
  (((line.bind fun obj => obj.get "config").bind Json.asObject).getD []).flatMap fun entry =>
    (entry.2.asArray.getD []).flatMap fileDeps

def reportDeps (output : List (Option Json)) : List Json := output.flatMap lineDeps

def Unresolved (dep : Json) : Prop :=
  (dep.get "skipReason").isSome ∨ ∃ w ws, dep.get "warnings" = some (.array (w :: ws))

/-- A dependency's name, or its package's when it has no name of its own. -/
def Named (dep : Json) (name : Text) : Prop :=
  dep.get "depName" = some (.string name) ∨
    dep.get "depName" = none ∧ dep.get "packageName" = some (.string name)

theorem uncheckedDep_of_unresolved {dep : Json} {name : Text} (h : Unresolved dep)
    (hname : Named dep name) : uncheckedDep dep = some name := by
  have hunresolved : (!((dep.get "skipReason").isSome ||
      ((dep.get "warnings").bind Json.asArray).any fun w => !w.isEmpty)) = false := by
    rcases h with h | ⟨w, ws, h⟩
    · simp [h]
    · simp [h, Json.asArray]
  simp only [uncheckedDep, hunresolved]
  rcases hname with h | ⟨h, h'⟩
  · simp [h, Json.asStr]
  · simp [h, h', Json.asStr]

def noteUnchecked (unchecked : List Text) (dep : Json) : List Text :=
  match uncheckedDep dep with
  | some name => if unchecked.contains name then unchecked else unchecked ++ [name]
  | none => unchecked

theorem unchecked_parsePackageFile (manager : Text) (acc : Parsed) (pf : Json) :
    (parsePackageFile manager acc pf).unchecked =
      (fileDeps pf).foldl noteUnchecked acc.unchecked := by
  unfold parsePackageFile fileDeps
  cases pf.asObject with
  | none => rfl
  | some _ =>
    cases (pf.get "deps").bind Json.asArray with
    | none => rfl
    | some deps =>
      have hfold := @foldl_flatMap_of_step Parsed (List Text) Json Json Parsed.unchecked
        (parseDep manager ((pf.strField "packageFile").getD [])) (fun dep => [dep]) noteUnchecked
        (fun _ _ => rfl) deps
      simpa using hfold _

theorem unchecked_parseLine (acc : Parsed) (line : Option Json) :
    (parseLine acc line).unchecked = (lineDeps line).foldl noteUnchecked acc.unchecked := by
  unfold parseLine lineDeps
  cases (line.bind fun obj => obj.get "config").bind Json.asObject with
  | none => rfl
  | some config =>
    refine foldl_flatMap_of_step (fun acc entry => ?_) config acc
    unfold parseManager
    cases entry.2.asArray with
    | none => rfl
    | some files => exact foldl_flatMap_of_step (unchecked_parsePackageFile _) files acc

theorem mem_foldl_noteUnchecked {deps : List Json} {unchecked : List Text} {name : Text} :
    name ∈ deps.foldl noteUnchecked unchecked ↔
      name ∈ unchecked ∨ ∃ dep ∈ deps, uncheckedDep dep = some name := by
  induction deps generalizing unchecked with
  | nil => simp
  | cons dep rest ih =>
    have hstep : name ∈ noteUnchecked unchecked dep ↔
        name ∈ unchecked ∨ uncheckedDep dep = some name := by
      unfold noteUnchecked
      cases uncheckedDep dep with
      | none => simp
      | some other =>
        by_cases hmem : other ∈ unchecked
        · simp only [List.contains_iff_mem, hmem, if_true, Option.some.injEq]
          exact ⟨Or.inl, fun h => h.elim id fun h => h ▸ hmem⟩
        · simp [hmem, eq_comm]
    rw [List.foldl_cons, ih, hstep]
    simp [or_assoc]

theorem mem_unchecked {output : List (Option Json)} {repoName : Text} {dep : Json} {name : Text}
    (hdep : dep ∈ reportDeps output) (h : Unresolved dep) (hname : Named dep name) :
    name ∈ (parseRenovateOutput output repoName).1.unchecked := by
  have hfold : (parseRenovateOutput output repoName).1.unchecked =
      (reportDeps output).foldl noteUnchecked [] :=
    foldl_flatMap_of_step unchecked_parseLine output {}
  rw [hfold, mem_foldl_noteUnchecked]
  exact Or.inr ⟨dep, hdep, uncheckedDep_of_unresolved h hname⟩

namespace Store
variable {s : Store} {repoId : Nat} {moves : List ProposedMove} {k : Nat}

theorem finding?_supersedeUnproposed {proposed unchecked : List Text} :
    (s.supersedeUnproposedDepUpdates repoId proposed unchecked).1.finding? k =
      (s.finding? k).map fun f => if unproposed repoId proposed unchecked f then
        { f with status := .superseded, verdictReason := some depUnproposedReason } else f :=
  List.getElem?_map

theorem superseded_by_handOver {f f' : Finding} (hf : s.finding? k = some f)
    (hf' : (s.handOverQueuedDepUpdates repoId moves).1.finding? k = some f')
    (h' : f'.status = .superseded) (h : f.status ≠ .superseded) :
    queuedUnproposed repoId moves f = true ∧ ∃ target p p', s.finding? target = some p ∧
      IsHeir repoId moves f p ∧
      (s.handOverQueuedDepUpdates repoId moves).1.finding? target = some p' ∧
      p'.status = .queued := by
  have hpairs : s.HandsOver (s.handOverPairs repoId moves) := handsOver_handOverPairs
  rw [finding?_handOverQueuedDepUpdates, hf, Option.map_some, Option.some.injEq] at hf'
  subst hf'
  unfold handedOver at h'
  split at h'
  · rename_i pair hpair
    have hmem := List.mem_of_find?_eq_some hpair
    obtain rfl : pair.1 = k := by simpa using List.find?_some hpair
    obtain ⟨x, hx, hqueued, hheir⟩ := mem_handOverPairs_iff.1 hmem
    obtain rfl : f = x := Option.some.inj (hf.symm.trans hx)
    obtain ⟨p, hp, hisHeir⟩ := heir_isHeir hheir
    have hp' : (s.handOverQueuedDepUpdates repoId moves).1.finding? pair.2 =
        some (s.handedOver (s.handOverPairs repoId moves) pair.2 p) := by
      rw [finding?_handOverQueuedDepUpdates, hp, Option.map_some]
    refine ⟨hqueued, pair.2, p, _, hp, hisHeir, hp', ?_⟩
    rw [handedOver_target hpairs hmem]
  · split at h'
    · cases h'
    · exact absurd h' h

end Store

theorem runs_sql {β : Type} {c : StoreCall β} {w w' : World} {r : Except Text β}
    (h : Runs CallStep (sql c) w r w') :
    (∃ b s, r = .ok b ∧ c.apply w.store = some (b, s) ∧ w' = { w with store := s }) ∨
      (∃ e, r = .error e) ∧ w' = w := by
  cases h with
  | call hstep hrest =>
    rcases hstep.leaves with ⟨b, s, rfl, happly, rfl⟩ | ⟨⟨e, rfl⟩, rfl⟩
    · cases hrest
      exact Or.inl ⟨b, s, rfl, happly, rfl⟩
    · cases hrest
      exact Or.inr ⟨⟨e, rfl⟩, rfl⟩

theorem runs_settleDepUpdates {repoId : Nat} {scan : DepScan} {w w' : World}
    {r : Except Text Unit} (h : Runs CallStep (settleDepUpdates repoId scan) w r w') :
    ∃ s, (s = w.store ∨
        s = (w.store.supersedeUnproposedDepUpdates repoId scan.proposed scan.unchecked).1) ∧
      (w'.store = s ∨ w'.store = (s.handOverQueuedDepUpdates repoId scan.moves).1) := by
  rcases Runs.of_bind h with ⟨b, v, hretire, hrest⟩ | ⟨e, -, hretire⟩
  · rcases runs_sql hretire with ⟨b', s, -, happly, rfl⟩ | ⟨⟨e, he⟩, -⟩
    · cases happly
      refine ⟨_, Or.inr rfl, ?_⟩
      rcases Runs.of_bind hrest with ⟨c, u, hhand, hdone⟩ | ⟨e, -, hhand⟩
      · cases hdone
        rcases runs_sql hhand with ⟨_, t, -, happly, rfl⟩ | ⟨-, rfl⟩
        · cases happly
          exact Or.inr rfl
        · exact Or.inl rfl
      · rcases runs_sql hhand with ⟨_, _, he, -⟩ | ⟨-, rfl⟩
        · cases he
        · exact Or.inl rfl
    · cases he
  · rcases runs_sql hretire with ⟨_, _, he, -⟩ | ⟨-, rfl⟩
    · cases he
    · exact ⟨w'.store, Or.inl rfl, Or.inl rfl⟩

/-- A settlement retires no finding of a package the run did not check, and supersedes a queued
one only where it queues the finding proposed for its move. -/
theorem settle_sparesUnchecked (parseF64 : Text → Option Double) (output : List (Option Json))
    (repoName : Text) (repoId : Nat) {w w' : World} {r : Except Text Unit}
    (h : Runs CallStep (settleDepUpdates repoId
      ((parseRenovateOutput output repoName).1.depScan parseF64)) w r w')
    {k : Nat} {f f' : Finding} (hf : w.store.finding? k = some f)
    (hf' : w'.store.finding? k = some f') (hsuperseded : f'.status = .superseded)
    (hopen : f.status ≠ .superseded) :
    (f.status = .new ∧
      (∀ c ∈ (parseRenovateOutput output repoName).1.candidates,
        c.fingerprint ≠ f.report.fingerprint) ∧
      ∀ dep ∈ reportDeps output, Unresolved dep → ∀ name, Named dep name →
        f.report.package ≠ some name) ∨
    (f.status = .queued ∧ ∃ target p p', w.store.finding? target = some p ∧
      IsHeir repoId ((parseRenovateOutput output repoName).1.depScan parseF64).moves f p ∧
      w'.store.finding? target = some p' ∧ p'.status = .queued) := by
  generalize hscan : (parseRenovateOutput output repoName).1 = scan at *
  obtain ⟨s, hs, hs'⟩ := runs_settleDepUpdates h
  obtain ⟨g, hg, hgf⟩ : ∃ g, s.finding? k = some g ∧ (g = f ∨
      Store.unproposed repoId (scan.depScan parseF64).proposed scan.unchecked f = true) := by
    rcases hs with rfl | rfl
    · exact ⟨f, hf, Or.inl rfl⟩
    · rw [Store.finding?_supersedeUnproposed, hf]
      refine ⟨_, rfl, ?_⟩
      by_cases hunproposed : Store.unproposed repoId (scan.depScan parseF64).proposed
          scan.unchecked f = true
      · exact Or.inr hunproposed
      · exact Or.inl (if_neg hunproposed)
  rcases hgf with rfl | hunproposed
  · right
    rcases hs' with hs' | hs'
    · rw [hs', hg] at hf'
      cases hf'
      exact absurd hsuperseded hopen
    · rw [hs'] at hf'
      obtain ⟨hqueued, target, p, p', hp, hheir, hp', hpqueued⟩ :=
        Store.superseded_by_handOver hg hf' hsuperseded hopen
      simp only [Store.queuedUnproposed, Bool.and_eq_true, decide_eq_true_eq] at hqueued
      refine ⟨hqueued.1.2, target, p, p', ?_, hheir, by rw [hs']; exact hp', hpqueued⟩
      rcases hs with rfl | rfl
      · exact hp
      · rw [Store.finding?_supersedeUnproposed] at hp
        obtain ⟨x, hx, hxp⟩ := Option.map_eq_some_iff.1 hp
        split at hxp
        · rw [← hxp] at hheir
          cases hheir.new
        · rw [hx, hxp]
  · left
    simp only [Store.unproposed, Bool.and_eq_true, decide_eq_true_eq, Bool.not_eq_true',
      List.contains_eq_mem, decide_eq_false_iff_not] at hunproposed
    obtain ⟨⟨⟨-, hnew⟩, hproposed⟩, hchecked⟩ := hunproposed
    refine ⟨hnew, fun c hc heq => hproposed (heq ▸ List.mem_map_of_mem hc), ?_⟩
    intro dep hdep hunresolved name hname hpackage
    have hmem : name ∈ scan.unchecked := by
      rw [← hscan]
      exact mem_unchecked hdep hunresolved hname
    rw [hpackage] at hchecked
    simp [Store.packageChecked, hmem] at hchecked

def StandsFor (f : Finding) (name : Text) : Prop :=
  ∃ output repoName, ∃ c ∈ (parseRenovateOutput output repoName).1.candidates,
    c.fingerprint = f.report.fingerprint ∧ ∃ mv ∈ c.moves, mv.package = name

def sampleDep (name : String) (rest : List (Text × Json)) : Json :=
  .object (("depName".toList, .string name.toList) ::
    ("currentVersion".toList, .string "1".toList) ::
    ("datasource".toList, .string "npm".toList) :: rest)

def groupUpdate : Json :=
  .object [("newVersion".toList, .string "1.1".toList),
    ("updateType".toList, .string "minor".toList),
    ("branchName".toList, .string "renovate/pair".toList)]

def sampleReport (deps : List Json) : List (Option Json) :=
  [some (.object [("config".toList, .object [("npm".toList, .array [.object [
    ("packageFile".toList, .string "package.json".toList), ("deps".toList, .array deps)]])])])]

def groupReport : List (Option Json) :=
  sampleReport [sampleDep "left" [("updates".toList, .array [groupUpdate])],
    sampleDep "right" [("updates".toList, .array [groupUpdate])]]

def skippedDep : Json := sampleDep "right" [("skipReason".toList, .string "unsupported".toList)]

def skippingReport : List (Option Json) :=
  sampleReport [sampleDep "left" [("updates".toList, .array [])], skippedDep]

def noDoubles (_ : Text) : Option Double := none

def groupWorld : World where
  trees := []
  store := {
    repos := []
    jobs := []
    findings :=
      (((parseRenovateOutput groupReport "repo".toList).1.depScan
        noDoubles).entries.reduceOption).map
        fun entry => { type := entry.1, repoId := 0, report := entry.2, status := .new } }

def skippingScan : DepScan := (parseRenovateOutput skippingReport "repo".toList).1.depScan noDoubles

def settledGroupWorld : World :=
  (Machine.replay alone (settleDepUpdates 0 skippingScan) groupWorld).2

theorem runs_groupWorld :
    Runs CallStep (settleDepUpdates 0 skippingScan) groupWorld (.ok ()) settledGroupWorld :=
  (endsAlone_replay rfl).mono fun _ _ _ _ h => h.1

theorem skippedDep_reported : skippedDep ∈ reportDeps skippingReport ∧ Unresolved skippedDep ∧
    Named skippedDep "right".toList :=
  ⟨by simp [reportDeps, skippingReport, sampleReport, lineDeps, fileDeps, Json.get, Json.asObject,
    Json.asArray], Or.inl rfl, Or.inl rfl⟩

/-- A group is matched by its own name only. -/
theorem groupFinding_retired : ¬ ∀ (parseF64 : Text → Option Double) (output : List (Option Json))
    (repoName : Text) (repoId : Nat) (w w' : World) (r : Except Text Unit),
    Runs CallStep (settleDepUpdates repoId
      ((parseRenovateOutput output repoName).1.depScan parseF64)) w r w' →
    ∀ k f f', w.store.finding? k = some f → w'.store.finding? k = some f' →
    ∀ dep ∈ reportDeps output, Unresolved dep → ∀ name, Named dep name → StandsFor f name →
      f'.status = .superseded → f.status = .superseded := by
  intro h
  obtain ⟨hdep, hunresolved, hnamed⟩ := skippedDep_reported
  obtain ⟨f, hf⟩ : ∃ f, groupWorld.store.finding? 0 = some f := ⟨_, rfl⟩
  obtain ⟨f', hf'⟩ : ∃ f', settledGroupWorld.store.finding? 0 = some f' := ⟨_, rfl⟩
  have hgroup : StandsFor f "right".toList := by
    refine ⟨groupReport, "repo".toList, _, List.mem_singleton_self _, ?_⟩
    cases hf
    exact ⟨rfl, ⟨"right".toList, false⟩, by decide, rfl⟩
  have hstays := h noDoubles skippingReport "repo".toList 0 _ _ _ runs_groupWorld 0 f f' hf hf'
    skippedDep hdep hunresolved "right".toList hnamed hgroup
  cases hf
  cases hf'
  exact absurd (hstays rfl) (by decide)

/-- The group finding goes, its package being no skipped dependency's name. -/
theorem settle_sparesUnchecked_group :
    ∃ f, groupWorld.store.finding? 0 = some f ∧ ∀ dep ∈ reportDeps skippingReport,
      Unresolved dep → ∀ name, Named dep name → f.report.package ≠ some name := by
  obtain ⟨f, hf⟩ : ∃ f, groupWorld.store.finding? 0 = some f := ⟨_, rfl⟩
  obtain ⟨f', hf'⟩ : ∃ f', settledGroupWorld.store.finding? 0 = some f' := ⟨_, rfl⟩
  have hnew : f.status = .new := by
    cases hf
    rfl
  have hsuperseded : f'.status = .superseded := by
    cases hf'
    rfl
  refine ⟨f, hf, ?_⟩
  rcases settle_sparesUnchecked noDoubles skippingReport "repo".toList 0 runs_groupWorld hf hf'
    hsuperseded (by simp [hnew]) with ⟨-, -, h⟩ | ⟨hqueued, -⟩
  · exact h
  · rw [hnew] at hqueued
    cases hqueued

end Hunter
