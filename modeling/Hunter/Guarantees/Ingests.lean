import Hunter.Changes.Findings
import Hunter.Effect.Runs
import Hunter.Replay
set_option autoImplicit false

namespace Hunter
open Effect

def FindingsFile.list : FindingsFile → List ScanEntry
  | .missing | .unreadable => []
  | .entries list => list

/-- The finding is one an entry names, by type and fingerprint. -/
def Reported (list : List ScanEntry) (x : Finding) : Prop :=
  ∃ row, some (x.type, row) ∈ list ∧ row.fingerprint = x.report.fingerprint

theorem Reported.mono {list list' : List ScanEntry} {x : Finding} (h : Reported list x)
    (hsub : ∀ e ∈ list, e ∈ list') : Reported list' x := by
  obtain ⟨row, hrow, hfingerprint⟩ := h
  exact ⟨row, hsub _ hrow, hfingerprint⟩

/-- What ingesting for a repo leaves of the findings: those not reported as they were, every one
under its key and repo, and new ones of this repo. -/
structure Ingested (repoId : Nat) (list : List ScanEntry) (s s' : Store) : Prop where
  kept : ∀ f x, s.finding? f = some x → ∃ x', s'.finding? f = some x' ∧
    x'.repoId = x.repoId ∧ x'.type = x.type ∧
      x'.report.fingerprint = x.report.fingerprint ∧ (x' = x ∨ Reported list x)
  filed : ∀ f x', s'.finding? f = some x' → s.finding? f = none →
    x'.repoId = repoId ∧ Reported list x'

namespace Ingested
variable {repoId : Nat} {list : List ScanEntry} {s t u : Store}

theorem refl (repoId : Nat) (list : List ScanEntry) (s : Store) : Ingested repoId list s s where
  kept := fun _ x hx => ⟨x, hx, rfl, rfl, rfl, Or.inl rfl⟩
  filed := fun _ _ hx hnone => by
    rw [hnone] at hx
    cases hx

theorem reported {x x' : Finding} (htype : x'.type = x.type)
    (hfingerprint : x'.report.fingerprint = x.report.fingerprint) (h : Reported list x) :
    Reported list x' := by
  obtain ⟨row, hrow, heq⟩ := h
  exact ⟨row, htype ▸ hrow, heq.trans hfingerprint.symm⟩

theorem trans (h : Ingested repoId list s t) (h' : Ingested repoId list t u) :
    Ingested repoId list s u where
  kept := by
    intro f x hx
    obtain ⟨y, hy, hrepo, htype, hfingerprint, hsame⟩ := h.kept f x hx
    obtain ⟨z, hz, hrepo', htype', hfingerprint', hsame'⟩ := h'.kept f y hy
    refine ⟨z, hz, hrepo'.trans hrepo, htype'.trans htype, hfingerprint'.trans hfingerprint, ?_⟩
    rcases hsame' with rfl | hreported
    · exact hsame
    · exact Or.inr (reported htype.symm hfingerprint.symm hreported)
  filed := by
    intro f z hz hnone
    cases hy : t.finding? f with
    | none => exact h'.filed f z hz hy
    | some y =>
      obtain ⟨hrepo, hreported⟩ := h.filed f y hy hnone
      obtain ⟨z', hz', hrepo', htype, hfingerprint, -⟩ := h'.kept f y hy
      cases hz.symm.trans hz'
      exact ⟨hrepo'.trans hrepo, reported htype hfingerprint hreported⟩

theorem mono {list' : List ScanEntry} (h : Ingested repoId list s t)
    (hsub : ∀ e ∈ list, e ∈ list') : Ingested repoId list' s t where
  kept := by
    intro f x hx
    obtain ⟨y, hy, hrepo, htype, hfingerprint, hsame⟩ := h.kept f x hx
    exact ⟨y, hy, hrepo, htype, hfingerprint, hsame.imp id fun hr => hr.mono hsub⟩
  filed := fun f x hx hnone => (h.filed f x hx hnone).imp id fun hr => hr.mono hsub

end Ingested

/-- Only the row `fid` is touched, under its key and repo. -/
def Touches (fid : Nat) (s s' : Store) : Prop :=
  s'.findings.length = s.findings.length ∧
    Store.Edits (fun f x x' => x'.repoId = x.repoId ∧ x'.type = x.type ∧
      x'.report.fingerprint = x.report.fingerprint ∧ (x' = x ∨ f = fid)) s s'

namespace Touches
variable {fid : Nat} {s t u : Store}

theorem refl (fid : Nat) (s : Store) : Touches fid s s :=
  ⟨rfl, fun _ x hx => ⟨x, hx, rfl, rfl, rfl, Or.inl rfl⟩⟩

theorem trans (h : Touches fid s t) (h' : Touches fid t u) : Touches fid s u := by
  refine ⟨h'.1.trans h.1, h.2.trans (fun f x y z hxy hyz => ?_) h'.2⟩
  obtain ⟨hrepo, htype, hfingerprint, hsame⟩ := hxy
  obtain ⟨hrepo', htype', hfingerprint', hsame'⟩ := hyz
  refine ⟨hrepo'.trans hrepo, htype'.trans htype, hfingerprint'.trans hfingerprint, ?_⟩
  rcases hsame' with rfl | hf
  · exact hsame
  · exact Or.inr hf

theorem ofFindings (h : t.findings = s.findings) : Touches fid s t :=
  ⟨congrArg List.length h, Store.edits_sameFindings (fun _ _ => ⟨rfl, rfl, rfl, Or.inl rfl⟩) h⟩

theorem ingested (h : Touches fid s t) {repoId : Nat} {list : List ScanEntry}
    (hfid : ∀ x, s.finding? fid = some x → Reported list x) : Ingested repoId list s t where
  kept := by
    intro f x hx
    obtain ⟨x', hx', hrepo, htype, hfingerprint, hsame⟩ := h.2 f x hx
    refine ⟨x', hx', hrepo, htype, hfingerprint, hsame.imp id ?_⟩
    rintro rfl
    exact hfid x hx
  filed := by
    intro f x' hx' hnone
    have hlt : f < t.findings.length := by
      simp only [Store.finding?, List.getElem?_eq_some_iff] at hx'
      exact hx'.1
    have hge : s.findings.length ≤ f := by simpa [Store.finding?] using hnone
    have hlen := h.1
    omega

end Touches

/-- What is asked and written about an entry that was filed before, as `fid`. -/
def StoreCall.concerns (fid : Nat) : {β : Type} → StoreCall β → Prop
  | _, .reopenSuppressed f _ | _, .refreshDepUpdate f _ => f = fid
  | _, .getFinding _ | _, .verdictAnchor _ | _, .pinnedSha _ | _, .getRepoById _ => True
  | _, _ => False

def TreeCall.isDiff : {β : Type} → TreeCall β → Prop
  | _, .diffNames _ _ _ => True
  | _, _ => False

def Call.concerns (fid : Nat) : {β : Type} → Call β → Prop
  | _, .store c => c.concerns fid
  | _, .tree c => c.isDiff
  | _, .ask _ => False

theorem touches_of_concerns {fid : Nat} {γ : Type} (c : Call γ) (w : World) (b : γ) (w' : World)
    (hc : c.concerns fid) (h : CallStep c w b w') : Touches fid w.store w'.store := by
  have hrefl := fun (f : Nat) (x : Finding) => (⟨rfl, rfl, rfl, Or.inl rfl⟩ :
    x.repoId = x.repoId ∧ x.type = x.type ∧
      x.report.fingerprint = x.report.fingerprint ∧ (x = x ∨ f = fid))
  cases h with
  | ask => exact hc.elim
  | @store _ c w b s happly =>
    cases c with
    | reopenSuppressed f row | refreshDepUpdate f row =>
      cases happly
      cases hc
      exact ⟨Store.length_updateFindingIf,
        Store.edits_updateFindingIf hrefl fun x _ => ⟨rfl, rfl, rfl, Or.inr rfl⟩⟩
    | getFinding | verdictAnchor | pinnedSha | getRepoById =>
      cases happly
      exact .refl fid _
    | _ => exact hc.elim
  | storeError => exact .refl fid _
  | _ => exact .ofFindings rfl

theorem runs_concerns {fid : Nat} {α : Type} {p : Act α} {w w' : World} {r : Except Text α}
    (hp : Only (Call.concerns fid) p) (h : Runs CallStep p w r w') :
    Touches fid w.store w'.store :=
  h.keeps (R := fun w w' => Touches fid w.store w'.store) (fun w => .refl fid w.store)
    (fun _ _ _ => Touches.trans) touches_of_concerns hp

theorem only_reopenIfChanged (repoId fid : Nat) (job : Option Nat) (row : FindingInsert) :
    Only (Call.concerns fid) (reopenIfChanged repoId fid job row) := by
  have hsql : ∀ {β : Type} {c : StoreCall β}, c.concerns fid →
      Only (Call.concerns fid) (sql c) := by
    intro β c hc
    refine ⟨hc, fun b => ?_⟩
    cases b <;> trivial
  unfold reopenIfChanged
  cases job with
  | none => trivial
  | some job =>
    refine only_bind (hsql trivial) fun finding => ?_
    cases finding with
    | none => trivial
    | some finding =>
      dsimp only
      split
      · trivial
      · refine only_bind (hsql trivial) fun anchor => ?_
        cases anchor with
        | none => trivial
        | some anchor =>
          refine only_bind (hsql trivial) fun sha => ?_
          cases sha with
          | none => trivial
          | some sha =>
            refine only_bind (hsql trivial) fun repo => ?_
            cases repo with
            | none => trivial
            | some repo =>
              refine only_bind ?_ fun changed => ?_
              · unfold changedSince
                split
                · trivial
                · exact ⟨trivial, fun _ => trivial⟩
              · split
                · exact hsql rfl
                · trivial

/-- What an entry does once the store said whether it is new. -/
def ingestFiled (repoId : Nat) (job : Option Nat) (reopen : Bool) (type : FindingType)
    (row : FindingInsert) (fid : Nat) : Act Bool := do
  let reopened ← (if reopen then do
    match ← (reopenIfChanged repoId fid job row).attempt with
    | .ok reopened => pure reopened
    | .error _ => pure false
    else pure false : Act Bool)
  if reopened then pure true
  else if type = .depUpdate then
    match ← sqlResult (.refreshDepUpdate fid row) with
    | .ok _ => pure true
    | .error _ => pure false
  else pure true

theorem only_ingestFiled (repoId fid : Nat) (job : Option Nat) (reopen : Bool)
    (type : FindingType) (row : FindingInsert) :
    Only (Call.concerns fid) (ingestFiled repoId job reopen type row fid) := by
  refine only_bind ?_ fun reopened => ?_
  · split
    · refine only_bind (only_attempt (only_reopenIfChanged _ _ _ _)) fun r => ?_
      cases r <;> trivial
    · trivial
  · split
    · trivial
    · split
      · refine ⟨rfl, fun b => ?_⟩
        cases b <;> trivial
      · trivial

variable {repoId : Nat} {job : Option Nat} {reopen : Bool} {w w' : World}

def Filed (repoId : Nat) (type : FindingType) (row : FindingInsert) (s : Store) : Prop :=
  ∃ f x, s.finding? f = some x ∧ x.repoId = repoId ∧ x.type = type ∧
    x.report.fingerprint = row.fingerprint

theorem Filed.ingested {type : FindingType} {row : FindingInsert} {list : List ScanEntry}
    {s t : Store} {r : Nat} (h : Filed repoId type row s) (hst : Ingested r list s t) :
    Filed repoId type row t := by
  obtain ⟨f, x, hx, hrepo, htype, hfingerprint⟩ := h
  obtain ⟨y, hy, hrepo', htype', hfingerprint', -⟩ := hst.kept f x hx
  exact ⟨f, y, hy, hrepo'.trans hrepo, htype'.trans htype, hfingerprint'.trans hfingerprint⟩

def Unshared (repoId : Nat) (list : List ScanEntry) (s : Store) : Prop :=
  ∀ f x, s.finding? f = some x → Reported list x → x.repoId = repoId

theorem Unshared.ingested {list list' : List ScanEntry} {s t : Store}
    (h : Unshared repoId list s) (hst : Ingested repoId list' s t) : Unshared repoId list t := by
  intro f y hy hreported
  cases hx : s.finding? f with
  | none => exact (hst.filed f y hy hx).1
  | some x =>
    obtain ⟨y', hy', hrepo, htype, hfingerprint, -⟩ := hst.kept f x hx
    cases hy.symm.trans hy'
    exact hrepo.trans (h f x hx (Ingested.reported htype.symm hfingerprint.symm hreported))

theorem ingested_addFinding {s : Store} {type : FindingType} {row : FindingInsert} :
    Ingested repoId [some (type, row)] s
      (s.addFinding { type := type, repoId := repoId, report := row, status := .new }) where
  kept := by
    intro f x hx
    refine ⟨x, ?_, rfl, rfl, rfl, Or.inl rfl⟩
    rw [Store.finding?_addFinding, if_neg]
    · exact hx
    · rintro rfl
      simp [Store.finding?] at hx
  filed := by
    intro f x' hx' hnone
    rw [Store.finding?_addFinding] at hx'
    split at hx'
    · cases hx'
      exact ⟨rfl, row, by simp, rfl⟩
    · rw [hnone] at hx'
      cases hx'

/-- One entry touches what is filed under its key, and files it if nothing is. -/
theorem runs_ingestRow {type : FindingType} {row : FindingInsert} {r : Except Text Bool}
    (h : Runs CallStep (ingestRow repoId job reopen type row) w r w') :
    Ingested repoId [some (type, row)] w.store w'.store ∧
      (r = .ok true → Unshared repoId [some (type, row)] w.store →
        Filed repoId type row w'.store) := by
  cases h with
  | call hstep hrest =>
    rcases hstep.leaves with ⟨b, s, rfl, happly, rfl⟩ | ⟨⟨e, rfl⟩, rfl⟩
    · simp only [StoreCall.apply, Option.some.injEq, Prod.mk.injEq] at happly
      obtain ⟨rfl, rfl⟩ := happly
      unfold Store.upsertFinding at hrest
      split at hrest
      · rename_i found hfound
        have hkey := List.find?_some hfound
        have hmem := mem_rows.1 (List.mem_of_find?_eq_some hfound)
        simp only [Bool.and_eq_true, decide_eq_true_eq] at hkey
        have hreported : Reported [some (type, row)] found.val :=
          ⟨row, by simp [hkey.1], hkey.2.symm⟩
        have htouch : Touches found.id w.store w'.store :=
          runs_concerns (only_ingestFiled repoId found.id job reopen type row) hrest
        have hingested : Ingested repoId [some (type, row)] w.store w'.store :=
          htouch.ingested fun x hx => by
            cases hx.symm.trans hmem
            exact hreported
        refine ⟨hingested, fun _ hshared => ?_⟩
        exact Filed.ingested ⟨found.id, found.val, hmem, hshared _ _ hmem hreported, hkey⟩ hingested
      · cases hrest
        refine ⟨ingested_addFinding, fun _ _ => ?_⟩
        have hnew := Store.finding?_addFinding w.store w.store.findings.length
          { type := type, repoId := repoId, report := row, status := .new }
        exact ⟨w.store.findings.length, _, hnew.trans (if_pos rfl), rfl, rfl, rfl⟩
    · cases hrest
      exact ⟨.refl _ _ _, fun h => by cases h⟩

theorem ingestRow_ends {type : FindingType} {row : FindingInsert} {r : Except Text Bool}
    (h : Runs CallStep (ingestRow repoId job reopen type row) w r w') : ∃ b, r = .ok b := by
  have hfiled : ∀ {fid : Nat} {u : World} {r : Except Text Bool},
      Runs CallStep (ingestFiled repoId job reopen type row fid) u r w' → ∃ b, r = .ok b := by
    intro fid u r h
    rcases h.of_bind with ⟨reopened, t, -, hafter⟩ | ⟨e, -, hfails⟩
    · split at hafter
      · cases hafter
        exact ⟨_, rfl⟩
      · split at hafter
        · cases hafter with
          | @call _ _ _ answer _ _ _ _ _ hrest =>
            cases answer <;> cases hrest <;> exact ⟨_, rfl⟩
        · cases hafter
          exact ⟨_, rfl⟩
    · split at hfails
      · rcases hfails.of_bind with ⟨answer, t, -, hafter⟩ | ⟨e, -, hattempt⟩
        · cases answer <;> cases hafter
        · obtain ⟨r', hr, -⟩ := Runs.of_attempt hattempt
          cases hr
      · cases hfails
  cases h with
  | @call _ _ _ answer _ _ _ _ _ hrest =>
    rcases answer with e | ⟨fid, isNew⟩
    · cases hrest
      exact ⟨_, rfl⟩
    · cases isNew with
      | true =>
        cases hrest
        exact ⟨_, rfl⟩
      | false => exact hfiled hrest

def FindingsFile.unread : FindingsFile → Nat
  | .missing | .unreadable => 1
  | .entries _ => 0

/-- A list's ingest entry by entry, and which of them it does not count as invalid. -/
inductive EntriesRun (repoId : Nat) (job : Option Nat) (reopen : Bool) :
    List ScanEntry → World → List Bool → World → Prop
  | nil {w : World} : EntriesRun repoId job reopen [] w [] w
  | unreadable {rest : List ScanEntry} {valid : List Bool} {w w' : World} :
      EntriesRun repoId job reopen rest w valid w' →
      EntriesRun repoId job reopen (none :: rest) w (false :: valid) w'
  | row {type : FindingType} {row : FindingInsert} {rest : List ScanEntry} {b : Bool}
      {valid : List Bool} {w t w' : World} :
      Runs CallStep (ingestRow repoId job reopen type row) w (.ok b) t →
      EntriesRun repoId job reopen rest t valid w' →
      EntriesRun repoId job reopen (some (type, row) :: rest) w (b :: valid) w'

theorem entriesRun_of_runs {list : List ScanEntry} {r : Except Text Nat}
    (h : Runs CallStep (ingestEntries repoId job reopen list) w r w') :
    ∃ valid, EntriesRun repoId job reopen list w valid w' ∧ r = .ok (valid.count false) := by
  induction list generalizing w r with
  | nil =>
    cases h
    exact ⟨[], .nil, rfl⟩
  | cons entry rest ih =>
    cases entry with
    | none =>
      rcases h.of_bind with ⟨n, t, hrest, hdone⟩ | ⟨e, -, hfails⟩
      · cases hdone
        obtain ⟨valid, hentries, hn⟩ := ih hrest
        cases hn
        exact ⟨false :: valid, .unreadable hentries, by simp⟩
      · obtain ⟨valid, -, hn⟩ := ih hfails
        cases hn
    | some pair =>
      obtain ⟨type, row⟩ := pair
      rcases h.of_bind with ⟨b, t, hrow, hafter⟩ | ⟨e, -, hfails⟩
      · rcases hafter.of_bind with ⟨n, u, hrest, hdone⟩ | ⟨e, -, hfails⟩
        · cases hdone
          obtain ⟨valid, hentries, hn⟩ := ih hrest
          cases hn
          refine ⟨b :: valid, .row hrow hentries, ?_⟩
          cases b <;> simp
        · obtain ⟨valid, -, hn⟩ := ih hfails
          cases hn
      · obtain ⟨b, hb⟩ := ingestRow_ends hfails
        cases hb

theorem EntriesRun.ingested {list : List ScanEntry} {valid : List Bool}
    (h : EntriesRun repoId job reopen list w valid w') :
    Ingested repoId list w.store w'.store := by
  induction h with
  | nil => exact .refl _ _ _
  | unreadable _ ih => exact ih.mono fun e he => List.mem_cons_of_mem _ he
  | row hrow _ ih =>
    have hfirst := (runs_ingestRow hrow).1
    exact (hfirst.mono (by simp)).trans (ih.mono fun e he => List.mem_cons_of_mem _ he)

theorem EntriesRun.length {list : List ScanEntry} {valid : List Bool}
    (h : EntriesRun repoId job reopen list w valid w') : valid.length = list.length := by
  induction h with
  | nil => rfl
  | unreadable _ ih => exact congrArg (· + 1) ih
  | row _ _ ih => exact congrArg (· + 1) ih

theorem EntriesRun.filed {list : List ScanEntry} {valid : List Bool}
    (h : EntriesRun repoId job reopen list w valid w') (hshared : Unshared repoId list w.store)
    {i : Nat} {type : FindingType} {row : FindingInsert}
    (hentry : list[i]? = some (some (type, row))) (hvalid : valid[i]? = some true) :
    Filed repoId type row w'.store := by
  induction h generalizing i with
  | nil => cases hentry
  | unreadable hrest ih =>
    cases i with
    | zero => cases hentry
    | succ i =>
      refine ih (fun f x hx hr => hshared f x hx (hr.mono fun e he => ?_)) hentry hvalid
      exact List.mem_cons_of_mem _ he
  | @row type' row' rest b _ w t w' hrow hrest ih =>
    obtain ⟨hfirst, hnew⟩ := runs_ingestRow hrow
    have hhead : ∀ e ∈ [some (type', row')], e ∈ some (type', row') :: rest := by simp
    cases i with
    | zero =>
      cases hentry
      cases hvalid
      exact (hnew rfl fun f x hx hr => hshared f x hx (hr.mono hhead)).ingested hrest.ingested
    | succ i =>
      refine ih (fun f x hx hr => ?_) hentry hvalid
      exact (hshared.ingested (hfirst.mono hhead)) f x hx
        (hr.mono fun e he => List.mem_cons_of_mem _ he)

/-- Ingest keeps to the keys of the file's entries, and counts each as invalid or not. Where no
other repo has a finding under one of the keys, it keeps to its repo, and files every entry it does
not count as invalid. -/
theorem ingest_keyed {file : FindingsFile} {r : Except Text Nat}
    (h : Runs CallStep (ingest repoId job reopen file) w r w') :
    Ingested repoId file.list w.store w'.store ∧
      ∃ valid : List Bool, EntriesRun repoId job reopen file.list w valid w' ∧
        r = .ok (file.unread + valid.count false) ∧
        (Unshared repoId file.list w.store →
          (∀ f x, w'.store.finding? f = some x → x.repoId ≠ repoId →
            w.store.finding? f = some x) ∧
          ∀ (i : Nat) type row, file.list[i]? = some (some (type, row)) → valid[i]? = some true →
            Filed repoId type row w'.store) := by
  have hlist : ∃ valid : List Bool, EntriesRun repoId job reopen file.list w valid w' ∧
      r = .ok (file.unread + valid.count false) := by
    cases file with
    | missing | unreadable =>
      cases h
      exact ⟨[], .nil, rfl⟩
    | entries list =>
      obtain ⟨valid, hentries, hr⟩ := entriesRun_of_runs h
      exact ⟨valid, hentries, by rw [hr, FindingsFile.unread, Nat.zero_add]⟩
  obtain ⟨valid, hentries, hr⟩ := hlist
  have hingested := hentries.ingested
  refine ⟨hingested, valid, hentries, hr, fun hshared => ⟨fun f x' hx' hother => ?_,
    fun i type row => hentries.filed hshared⟩⟩
  cases hx : w.store.finding? f with
  | none => exact absurd (hingested.filed f x' hx' hx).1 hother
  | some x =>
    obtain ⟨y, hy, hrepo, -, -, rfl | hreported⟩ := hingested.kept f x hx
    · exact hy.symm.trans hx'
    · cases hx'.symm.trans hy
      exact absurd (hrepo.trans (hshared f x hx hreported)) hother

def depUpdateTo (version : Text) : FindingInsert :=
  { sampleInsert with fingerprint := ['d'], latestVersion := some version }

/-- Two repos, one with an open update under the key `d`. -/
def sharedKey : World where
  store := {
    repos := [some sampleRepo, some { sampleRepo with name := ['q'] }]
    findings := [{
      type := .depUpdate, repoId := 0, report := depUpdateTo ['1'], status := .new }]
    jobs := [] }
  trees := []

/-- The second repo's scan rewrites the first one's finding, and files none of its own. -/
theorem shared_key_taken :
    ∃ w', Runs CallStep
        (ingest 1 none false (.entries [some (.depUpdate, depUpdateTo ['2'])]))
        sharedKey (.ok 0) w' ∧
      w'.store.findings = [{
        type := .depUpdate, repoId := 0, report := depUpdateTo ['2'], status := .new }] :=
  ⟨_, .call (.store rfl rfl) (.call (.store rfl rfl) .done), by decide⟩

/-- Two repos, each with an open update under a key of its own. -/
def ownKeys : World where
  store := {
    repos := [some sampleRepo, some { sampleRepo with name := ['q'] }]
    findings := [{
      type := .depUpdate, repoId := 0, report := depUpdateTo ['1'], status := .new }, {
      type := .depUpdate, repoId := 1
      report := { depUpdateTo ['1'] with fingerprint := ['q'] }, status := .new }]
    jobs := [] }
  trees := []

/-- A finding filed before, one whose write fails, and a new one. -/
def threeEntries : FindingsFile :=
  .entries [some (.depUpdate, depUpdateTo ['2']),
    some (.depUpdate, { depUpdateTo ['2'] with fingerprint := ['e'] }),
    some (.depUpdate, { depUpdateTo ['2'] with fingerprint := ['f'] })]

/-- One write failed: the other entries are filed all the same, and the other repo's finding is as
it was. -/
theorem own_key_filed :
    ∃ w', Runs CallStep (ingest 0 none false threeEntries) ownKeys (.ok 1) w' ∧
      (∀ f x, w'.store.finding? f = some x → x.repoId ≠ 0 → ownKeys.store.finding? f = some x) ∧
      w'.store.finding? 1 = ownKeys.store.finding? 1 ∧
      Filed 0 .depUpdate (depUpdateTo ['2']) w'.store ∧
      Filed 0 .depUpdate { depUpdateTo ['2'] with fingerprint := ['f'] } w'.store := by
  have hrun : Runs CallStep (ingest 0 none false threeEntries) ownKeys (.ok 1) _ :=
    .call (.store rfl rfl) (.call (.store rfl rfl) (.call (.storeError _ _ []) (.call (.store rfl rfl) .done)))
  have hshared : Unshared 0 threeEntries.list ownKeys.store := by
    intro f x hx hreported
    match f with
    | 0 =>
      cases hx
      rfl
    | 1 =>
      cases hx
      obtain ⟨row, hrow, hkey⟩ := hreported
      simp only [threeEntries, FindingsFile.list, List.mem_cons, Option.some.injEq, Prod.mk.injEq,
        List.not_mem_nil, or_false] at hrow
      rcases hrow with ⟨-, rfl⟩ | ⟨-, rfl⟩ | ⟨-, rfl⟩ <;> simp [depUpdateTo] at hkey
    | f + 2 => cases hx
  obtain ⟨-, valid, hentries, hr, hkept⟩ := ingest_keyed hrun
  obtain ⟨hframe, hfiled⟩ := hkept hshared
  obtain ⟨a, b, c, rfl⟩ := List.length_eq_three.1 hentries.length
  have hlost : b = false := by
    by_contra hb
    obtain ⟨f, x, hx, -, -, hkey⟩ := hfiled 1 _ _ rfl (by simpa using hb)
    match f with
    | 0 | 1 | 2 =>
      cases hx
      exact absurd hkey (by decide)
    | f + 3 => cases hx
  subst hlost
  have hcount : [a, false, c].count false = 1 := by
    simpa [threeEntries, FindingsFile.unread] using (Except.ok.inj hr).symm
  have hothers : a = true ∧ c = true := by
    cases a <;> cases c <;> simp at hcount ⊢
  obtain ⟨rfl, rfl⟩ := hothers
  exact ⟨_, hrun, hframe, rfl, hfiled 0 _ _ rfl rfl, hfiled 2 _ _ rfl rfl⟩

end Hunter
