import Hunter.Effect.Pool
import Hunter.Store.Dates
import Hunter.Text
set_option autoImplicit false

namespace Hunter.Notes
open Effect
open Function (update)

structure RepoRow where
  name : Text
  findings : Nat
  jobs : Nat
  deletedAt : Option Nat

/-- A statement or the removal of files, which runs to its end once it is under way. -/
inductive Op
  | softDelete (id : Int)
  | removeClone (id : Int)
  | removeNotes (id : Int)
  | forgetDeletedRepo (id : Int)

/-- The repos, their notes and the untracked `NOTES.md` of their clones; who holds the lock over
the notes; and what was under way when its request was dropped. -/
structure Grounds where
  repos : Int → Option RepoRow
  nextId : Int
  notes : Int → Option ByteArray
  legacy : Int → Option ByteArray
  holder : Option Nat
  inFlight : List Op
  clock : Nat

inductive NotesError
  | badRequest (why : Text)
  | notFound (id : Int)
  | refused (why : Text)
  | db (why : Text)
  | internal (why : Text)

namespace Grounds
variable (s : Grounds)

def getRepoById (id : Int) : Option RepoRow :=
  (s.repos id).filter fun row => row.deletedAt.isNone

def repoIsDeleted (id : Int) : Bool := (s.repos id).any fun row => row.deletedAt.isSome

def NameFree (name : Text) : Prop := ∀ id row, s.repos id = some row → row.name ≠ name

def setRepo (id : Int) (row : Option RepoRow) : Grounds :=
  { s with repos := update s.repos id row }

/-- `repos.id` is AUTOINCREMENT. -/
def addRepo (name : Text) : Grounds :=
  { s.setRepo s.nextId (some ⟨name, 0, 0, none⟩) with nextId := s.nextId + 1 }

/-- Why `soft_delete_repo` refuses. -/
def refusal (id : Int) : Option Text :=
  (s.repos id).bind fun row =>
    if 0 < row.findings || 0 < row.jobs then
      some ("repo ".toList ++ Text.int id ++ " has ".toList ++ Text.nat row.findings ++
        " finding(s) and ".toList ++ Text.nat row.jobs ++
        (" job(s) -- cannot delete without losing history; pause it instead").toList)
    else none

def flagged (id : Int) (row : RepoRow) : RepoRow :=
  { row with
    name := row.name ++ " (deleted #".toList ++ Text.int id ++ [')']
    deletedAt := some s.clock }

def maxNotesChars : Nat := 4000
def notesTruncationPrefix : Text := "...(older notes truncated)...\n".toList

def repoNotes (file : Option ByteArray) : Text :=
  match file.bind ByteArray.utf8Decode? with
  | none => []
  | some text =>
    let text := text.toList
    if text.length ≤ maxNotesChars then text
    else notesTruncationPrefix ++ text.drop (text.length - maxNotesChars)

def padded (width : Nat) (n : Int) : Text :=
  List.replicate (width - (Text.int n).length) '0' ++ Text.int n

def utcDateTime (secs : Int) : Checked.Result (Text × Text) := do
  let (y, m, d) ← civilFromDays (secs / 86400)
  let tod := secs % 86400
  pure (padded 4 y ++ ['-'] ++ padded 2 m ++ ['-'] ++ padded 2 d,
    padded 2 (tod / 3600) ++ [':'] ++ padded 2 (tod % 3600 / 60))

/-- What a note adds to its file. -/
def noteEntry (started : Bool) (repoName note : Text) (category : Option Text)
    (date hhmm : Text) : Text :=
  (if started then []
    else "# Notes: ".toList ++ repoName ++ "\n\nLast updated: ".toList ++ date ++ ['\n', '\n']) ++
  (match category with
    | some category => "## ".toList ++ category ++ ['\n']
    | none => []) ++
  "- [".toList ++ date ++ [' '] ++ hhmm ++ "] ".toList ++ note ++ ['\n', '\n']

def entry (id : Int) (repoName note : Text) (category : Option Text) : Checked.Result Text := do
  let (date, hhmm) ← utcDateTime (s.clock / 1000)
  pure (noteEntry (s.notes id).isSome repoName note category date hhmm)

def append (id : Int) (bytes : ByteArray) : Grounds :=
  { s with notes := update s.notes id (some ((s.notes id).getD .empty ++ bytes)) }

end Grounds

def Op.Done (s s' : Grounds) : Op → Prop
  | .softDelete id =>
    s.refusal id = none ∧
      match s.getRepoById id with
      | none => s' = s
      | some row => s.NameFree (s.flagged id row).name ∧
          s' = s.setRepo id (some (s.flagged id row))
  | .removeClone id => s' = { s with legacy := update s.legacy id none }
  | .removeNotes id => s' = { s with notes := update s.notes id none }
  | .forgetDeletedRepo id =>
    match (s.repos id).filter fun row => row.deletedAt.isSome with
    | none => s' = s
    | some row => row.findings = 0 ∧ row.jobs = 0 ∧ s' = s.setRepo id none

/-- What a failed one leaves: of a clone some of its files may be gone. -/
def Op.Failed (s s' : Grounds) : Op → Prop
  | .removeClone id => s' = s ∨ s' = { s with legacy := update s.legacy id none }
  | _ => s' = s

inductive Response
  | noted (notes : Text)
  | notes (notes : Text)
  | deleted

inductive NotesCall : Type → Type
  | lock : NotesCall Unit
  | unlock : NotesCall Unit
  | getRepoById (id : Int) : NotesCall (Except NotesError (Option RepoRow))
  | repoIsDeleted (id : Int) : NotesCall (Except NotesError Bool)
  | deletedRepoIds : NotesCall (Except NotesError (List Int))
  | op (o : Op) : NotesCall (Except NotesError Unit)
  | appendRepoNote (id : Int) (repoName note : Text) (category : Option Text) :
      NotesCall (Except NotesError Text)
  | repoNotes (id : Int) : NotesCall Text
  | logUserEvent (message : Text) : NotesCall (Except NotesError Unit)
  | respond (response : Except NotesError Response) : NotesCall Unit

abbrev NotesAct (α : Type) := Prog NotesCall NotesError α

def ended {α : Type} : Except NotesError α → NotesAct α
  | .ok a => pure a
  | .error e => .fail e

/-- The lock is held until `body` ends, however it does. -/
def guarded {α : Type} (body : NotesAct α) : NotesAct α := do
  Prog.ask .lock
  let r ← (body.attempt : NotesAct (Except NotesError α))
  Prog.ask .unlock
  ended r

/-- The row goes last: it is what tells that the files are still there. -/
def reapRepo (id : Int) : NotesAct Unit :=
  guarded do
    Prog.try_ (.op (.removeClone id))
    Prog.try_ (.op (.removeNotes id))
    Prog.try_ (.op (.forgetDeletedRepo id))

def reapEach : List Int → NotesAct Nat
  | [] => pure 0
  | id :: rest => do
    let r ← ((reapRepo id).attempt : NotesAct (Except NotesError Unit))
    let reaped ← reapEach rest
    pure (match r with
      | .ok () => reaped + 1
      | .error _ => reaped)

def reapDeletedRepos : NotesAct Nat := do
  let ids ← Prog.ask .deletedRepoIds
  reapEach (match ids with
    | .ok ids => ids
    | .error _ => [])

def flagRepo (id : Int) : NotesAct Unit := do
  match ← Prog.try_ (.getRepoById id) with
  | none =>
    if ← Prog.try_ (.repoIsDeleted id) then pure () else .fail (.notFound id)
  | some repo =>
    Prog.try_ (.op (.softDelete id))
    Prog.try_ (.logUserEvent
      ("deleted ".toList ++ repo.name ++ " (#".toList ++ Text.int id ++ [')']))

def deleteRepo (id : Int) : NotesAct Response := do
  guarded (flagRepo id)
  let _ ← ((reapRepo id).attempt : NotesAct (Except NotesError Unit))
  pure .deleted

inductive Given
  | absent
  | text (s : Text)
  | other

/-- What the body of a note's request holds. -/
structure NoteBody where
  id : Option Int
  note : Option Text
  category : Given

def NoteBody.checked (body : NoteBody) : Except NotesError (Int × Text × Option Text) :=
  match body.id with
  | none => .error (.badRequest "id must be an integer".toList)
  | some id =>
    match body.note.map Text.trim with
    | none | some [] => .error (.badRequest "note must be a non-empty string".toList)
    | some note =>
      match body.category with
      | .absent => .ok (id, note, none)
      | .text s => .ok (id, note, if (Text.trim s).isEmpty then none else some (Text.trim s))
      | .other => .error (.badRequest "category must be a string".toList)

def fetchRepo (id : Int) : NotesAct RepoRow := do
  match ← Prog.try_ (.getRepoById id) with
  | some repo => pure repo
  | none => .fail (.notFound id)

def addRepoNote (body : NoteBody) : NotesAct Response := do
  let (id, note, category) ← ended body.checked
  guarded do
    let repo ← fetchRepo id
    let notes ← Prog.try_ (.appendRepoNote id repo.name note category)
    Prog.try_ (.logUserEvent ("note added to ".toList ++ repo.name ++
      match category with
      | some category => " [".toList ++ category ++ [']']
      | none => []))
    pure (.noted notes)

def repoNotes (id : Int) : NotesAct Response := do
  let _ ← fetchRepo id
  let notes ← Prog.ask (.repoNotes id)
  pure (.notes notes)

inductive Task
  | deleteRepo (id : Int)
  | addRepoNote (body : NoteBody)
  | repoNotes (id : Int)
  | reapDeletedRepos

def answered (handler : NotesAct Response) : NotesAct (Option Task) := do
  let r ← (handler.attempt : NotesAct (Except NotesError Response))
  Prog.ask (.respond r)
  pure none

def Task.body : Task → NotesAct (Option Task)
  | .deleteRepo id => answered (Notes.deleteRepo id)
  | .addRepoNote body => answered (Notes.addRepoNote body)
  | .repoNotes id => answered (Notes.repoNotes id)
  | .reapDeletedRepos => do
    let _ ← Notes.reapDeletedRepos
    pure none

/-- What a call of thread `i` can answer, and what it leaves. -/
def NotesCall.Step (i : Nat) (s s' : Grounds) : {β : Type} → NotesCall β → β → Prop
  | _, .lock, _ => s.holder = none ∧ s' = { s with holder := some i }
  | _, .unlock, _ => s' = { s with holder := none }
  | _, .getRepoById id, b => s' = s ∧ ∀ found, b = .ok found → found = s.getRepoById id
  | _, .repoIsDeleted id, b => s' = s ∧ ∀ found, b = .ok found → found = s.repoIsDeleted id
  | _, .deletedRepoIds, b => s' = s ∧ ∀ ids, b = .ok ids →
    ids.Nodup ∧ (∀ id, id ∈ ids ↔ s.repoIsDeleted id = true) ∧
      ids.Pairwise fun a b => ∀ row row', s.repos a = some row → s.repos b = some row' →
        row.deletedAt.getD 0 ≤ row'.deletedAt.getD 0
  | _, .op o, b =>
    match b with
    | .ok () => o.Done s s'
    | .error e => o.Failed s s' ∧
        ∀ why, e = .refused why → ∃ id, o = .softDelete id ∧ s.refusal id = some why
  | _, .appendRepoNote id repoName note category, b =>
    match b with
    | .ok notes => ∃ entry, s.entry id repoName note category = .ok entry ∧
        s' = s.append id entry.utf8Encode ∧
        (notes = Grounds.repoNotes (s'.notes id) ∨ notes = Grounds.repoNotes none)
    | .error _ => s' = s ∨ ∃ entry written missed,
        s.entry id repoName note category = .ok entry ∧
          written ++ missed = entry.utf8Encode ∧ s' = s.append id written
  | _, .repoNotes id, b => s' = s ∧
    (b = Grounds.repoNotes (s.notes id) ∨ b = Grounds.repoNotes none)
  | _, .logUserEvent _, _ => s' = s
  | _, .respond _, _ => s' = s

/-- Where a handler awaits, it may be dropped with its connection. -/
def NotesCall.awaits : {β : Type} → NotesCall β → Bool
  | _, .unlock | _, .appendRepoNote .. | _, .repoNotes _ => false
  | _, _ => true

def NotesCall.pending : {β : Type} → NotesCall β → List Op
  | _, .op o => [o]
  | _, _ => []

/-- What a thread that is dropped leaves to go on by itself. -/
def pending : NotesAct (Option Task) → List Op
  | .call c _ => c.pending
  | _ => []

/-- A repo is added, renamed, found to have findings or jobs; an operation under way comes to its
end, well or not. -/
inductive EnvStep (s : Grounds) : Grounds → Prop
  | clock (now : Nat) : EnvStep s { s with clock := now }
  | addRepo {name : Text} : s.NameFree name → EnvStep s (s.addRepo name)
  | edit {id : Int} {row row' : RepoRow} : s.repos id = some row →
      row'.deletedAt = row.deletedAt → EnvStep s (s.setRepo id (some row'))
  | lands {before after : List Op} {o : Op} {s' : Grounds} : s.inFlight = before ++ o :: after →
      o.Done { s with inFlight := before ++ after } s' ∨
        o.Failed { s with inFlight := before ++ after } s' → EnvStep s s'

/-- `migrate_repo_notes` of one clone, which may be cut short anywhere. -/
inductive Migrated (notes legacy : Option ByteArray) :
    Option ByteArray → Option ByteArray → Prop
  | left : Migrated notes legacy notes legacy
  | copied {text : ByteArray} : notes = none → legacy = some text →
      Migrated notes legacy legacy legacy
  | moved {text : ByteArray} : notes = none → legacy = some text →
      Migrated notes legacy legacy none
  | parked {text : ByteArray} : notes = some text → Migrated notes legacy notes none

/-- The process starts over, and moves the notes out of the clones. -/
def Restarted (s s' : Grounds) : Prop :=
  ∃ notes legacy, (∀ id, Migrated (s.notes id) (s.legacy id) (notes id) (legacy id)) ∧
    s' = { s with notes := notes, legacy := legacy, holder := none, inFlight := [] }

/-- Every row has an id given out before, and every file a row. -/
structure Grounds.Owned (s : Grounds) : Prop where
  below : ∀ id row, s.repos id = some row → id < s.nextId
  notes : ∀ id, (s.notes id).isSome → (s.repos id).isSome
  legacy : ∀ id, (s.legacy id).isSome → (s.repos id).isSome

/-- The requests and the reaper of one process after another, on an installation whose files
belong to its repos. -/
def yard : Pool NotesCall NotesError Grounds where
  Task := Task
  body := Task.body
  init s := s.Owned ∧ s.holder = none ∧ s.inFlight = []
  starts _ _ := True
  step i c s b s' := c.Step i s s' b
  leave i p s := { s with
    holder := if s.holder = some i then none else s.holder
    inFlight := pending p ++ s.inFlight }
  mayLeave _ p _ :=
    match p with
    | .call c _ => c.awaits = true
    | _ => True
  env := EnvStep
  restart := Restarted

end Hunter.Notes
