import Hunter.Delimited
import Hunter.Effect.Pool
import Hunter.Text
set_option autoImplicit false

namespace Hunter.Auth
open Effect Delimited

/-- A row of `users`; its id is its place. -/
structure User where
  username : Text
  passwordHash : Text
  createdAt : Int
  disabledAt : Option Int
  deriving DecidableEq

/-- A row of `sessions`, keyed by `tokenHash`. -/
structure Session where
  tokenHash : List UInt8
  userId : Nat
  createdAt : Int
  expiresAt : Int
  deriving DecidableEq

structure CurrentUser where
  id : Nat
  username : Text
  deriving DecidableEq

structure Accounts where
  users : List User
  sessions : List Session
  clock : Int

/-- `COLLATE NOCASE`. -/
def sameName (a b : Text) : Bool := a.map Char.toLower = b.map Char.toLower

namespace Accounts
variable (s : Accounts)

def userId? (username : Text) : Option Nat := s.users.findIdx? fun u => sameName u.username username

def modifyUser (id : Nat) (f : User → User) : Accounts := { s with users := s.users.modify id f }

/-- `none` when the name is taken. -/
def createUser (username hash : Text) : Option (Nat × Accounts) :=
  match s.userId? username with
  | some _ => none
  | none => some (s.users.length,
      { s with
        users := s.users ++
          [{ username := username, passwordHash := hash, createdAt := s.clock,
             disabledAt := none }] })

def endSessions (id : Nat) : Accounts :=
  { s with sessions := s.sessions.filter fun x => x.userId ≠ id }

def setPassword (username hash : Text) : Bool × Accounts :=
  match s.userId? username with
  | none => (false, s)
  | some id => (true, (s.modifyUser id fun u => { u with passwordHash := hash }).endSessions id)

def disableUser (username : Text) : Bool × Accounts :=
  match s.userId? username with
  | none => (false, s)
  | some id =>
    (true, (s.modifyUser id fun u => { u with disabledAt := u.disabledAt.or (some s.clock) }
      ).endSessions id)

def loginCandidate (username : Text) : Option (CurrentUser × Text) := do
  let id ← s.userId? username
  let u ← s.users[id]?
  if u.disabledAt.isSome then none else pure ({ id := id, username := u.username }, u.passwordHash)

/-- Expired sessions are cleared on the way; `none` when the token's hash is taken. -/
def createSession (user : CurrentUser) (tokenHash : List UInt8) (expiresAt : Int) :
    Option Accounts :=
  let live := s.sessions.filter fun x => s.clock < x.expiresAt
  if live.any fun x => x.tokenHash = tokenHash then none
  else some
    { s with
      sessions := live ++
        [{ tokenHash := tokenHash, userId := user.id, createdAt := s.clock
           expiresAt := expiresAt }] }

def sessionUser (tokenHash : List UInt8) (now : Int) : Option CurrentUser := do
  let x ← s.sessions.find? fun x => x.tokenHash = tokenHash
  let u ← s.users[x.userId]?
  if now < x.expiresAt && u.disabledAt.isNone then
    pure { id := x.userId, username := u.username }
  else none

def deleteSession (tokenHash : List UInt8) : Accounts :=
  { s with sessions := s.sessions.filter fun x => x.tokenHash ≠ tokenHash }

end Accounts

def sessionCookieName : Text := "hunter_session".toList

def sessionTtlMs : Int := 30 * 24 * 60 * 60 * 1000

/-- The session token in the values of a request's `Cookie` headers; `none` is one that is not
text. -/
def sessionToken (cookies : List (Option Text)) : Option Text :=
  ((cookies.filterMap id).flatMap fun v => v.splitOn ';').findSome? fun pair =>
    match splitOnce ['='] (Text.trim pair) with
    | some (name, value) => if name = sessionCookieName ∧ value ≠ [] then some value else none
    | none => none

def headerValue (s : Text) : Option Text :=
  if s.all fun c => 32 ≤ c.toNat && c.toNat < 127 || c = '\t' then some s else none

def sessionCookie (token : Text) : Option Text :=
  headerValue (sessionCookieName ++ ['='] ++ token ++
    "; Path=/; HttpOnly; SameSite=Strict; Max-Age=".toList ++ Text.int (sessionTtlMs / 1000))

def clearedSessionCookie : Text :=
  "hunter_session=; Path=/; HttpOnly; SameSite=Strict; Max-Age=0".toList

inductive AccountError
  | unsupportedMediaType
  | badRequest (why : Text)
  | unauthorized (why : Text)
  | db (why : Text)
  | internal (why : Text)
  /-- A name of other characters than ASCII letters, digits, `.`, `_` and `-`. -/
  | badUsername (name : Text)
  | noUser (username : Text)

def loginRequired : Text := "login required".toList
def badLogin : Text := "invalid username or password".toList

def minPasswordChars : Nat := 12

def validateUsername (name : Text) : Except AccountError Unit :=
  if name.isEmpty || 64 < (name.map Char.utf8Size).sum then
    .error (.internal "a username must be 1 to 64 characters".toList)
  else if !name.all fun c => c.isAlphanum || ['.', '_', '-'].contains c then
    .error (.badUsername name)
  else .ok ()

def validatePassword (password : Text) : Except AccountError Unit :=
  if password.length < minPasswordChars then
    .error (.internal ("a password must be at least ".toList ++ Text.nat minPasswordChars ++
      " characters".toList))
  else .ok ()

def decoyHash : Text :=
  ("$argon2id$v=19$m=19456,t=2,p=1$8ctNPuHuM+GaQyKfs/iUDw$" ++
    "j+UIhOp01a87bkTUl0syGOfnWfbPi9y2Pgc8qx/LjT4").toList

/-- `{b:02x}` of each byte. -/
def hex (bytes : List UInt8) : Text :=
  bytes.flatMap fun b => [Nat.digitChar (b.toNat / 16), Nat.digitChar (b.toNat % 16)]

inductive Response
  | loggedIn (cookie username : Text)
  | loggedOut (cookie : Text)
  | served (user : CurrentUser)
  | created (id : Nat)
  | done

/-- The statements of the store, the work done off the runtime, and the answer given. -/
inductive AccountCall : Type → Type
  | now : AccountCall Int
  | loginCandidate (username : Text) :
      AccountCall (Except AccountError (Option (CurrentUser × Text)))
  | verifyPassword (password hash : Text) : AccountCall (Except AccountError Bool)
  | hashPassword (password : Text) : AccountCall (Except AccountError Text)
  | newSessionToken : AccountCall (Except AccountError Text)
  | createSession (user : CurrentUser) (tokenHash : List UInt8) (expiresAt : Int) :
      AccountCall (Except AccountError Unit)
  | sessionUser (tokenHash : List UInt8) (now : Int) :
      AccountCall (Except AccountError (Option CurrentUser))
  | deleteSession (tokenHash : List UInt8) : AccountCall (Except AccountError Unit)
  | createUser (username hash : Text) : AccountCall (Except AccountError Nat)
  | setPassword (username hash : Text) : AccountCall (Except AccountError Bool)
  | disableUser (username : Text) : AccountCall (Except AccountError Bool)
  | respond (response : Response) : AccountCall Unit

abbrev AccountAct (α : Type) := Prog AccountCall AccountError α

/-- The digest of a token, and whether a password matches a hash. -/
structure Crypto where
  tokenHash : Text → List UInt8
  verifyPassword : Text → Text → Bool

/-- `post_gate`, given the request's `Content-Type` where it is text. -/
def postGate (contentType : Option Text) : AccountAct Unit :=
  if "application/json".toList.isPrefixOf (contentType.getD []) then pure ()
  else .fail .unsupportedMediaType

def field (key : String) : Option Text → AccountAct Text
  | some value => pure value
  | none => .fail (.badRequest (key.toList ++ " must be a string".toList))

/-- What a login's body holds: the values of its fields, where they are strings. -/
structure LoginBody where
  username : Option Text
  password : Option Text

section
variable (crypto : Crypto)

def login (contentType : Option Text) (body : LoginBody) : AccountAct Unit := do
  postGate contentType
  let username ← field "username" body.username
  let password ← field "password" body.password
  let candidate ← Prog.try_ (.loginCandidate username)
  let hash := (candidate.map Prod.snd).getD decoyHash
  let matches_ ← Prog.try_ (.verifyPassword password hash)
  match candidate.filter fun _ => matches_ with
  | none => .fail (.unauthorized badLogin)
  | some (user, _) =>
    let token ← Prog.try_ .newSessionToken
    let now ← Prog.ask .now
    Prog.try_ (.createSession user (crypto.tokenHash token) (now + sessionTtlMs))
    match sessionCookie token with
    | none => .fail (.internal "session cookie".toList)
    | some cookie => Prog.ask (.respond (.loggedIn cookie user.username))

def requireSession (cookies : List (Option Text)) : AccountAct CurrentUser := do
  match sessionToken cookies with
  | none => .fail (.unauthorized loginRequired)
  | some token =>
    let now ← Prog.ask .now
    match ← Prog.try_ (.sessionUser (crypto.tokenHash token) now) with
    | some user => pure user
    | none => .fail (.unauthorized loginRequired)

def request (cookies : List (Option Text)) : AccountAct Unit := do
  let user ← requireSession crypto cookies
  Prog.ask (.respond (.served user))

def logout (contentType : Option Text) (cookies : List (Option Text)) : AccountAct Unit := do
  let _ ← requireSession crypto cookies
  postGate contentType
  match sessionToken cookies with
  | some token => Prog.try_ (.deleteSession (crypto.tokenHash token))
  | none => pure ()
  Prog.ask (.respond (.loggedOut clearedSessionCookie))

end

def ensured : Except AccountError Unit → AccountAct Unit
  | .ok () => pure ()
  | .error why => .fail why

def addUser (username password : Text) : AccountAct Unit := do
  ensured (validateUsername username)
  ensured (validatePassword password)
  let hash ← Prog.try_ (.hashPassword password)
  let id ← Prog.try_ (.createUser username hash)
  Prog.ask (.respond (.created id))

def changePassword (username password : Text) : AccountAct Unit := do
  ensured (validatePassword password)
  let hash ← Prog.try_ (.hashPassword password)
  if ← Prog.try_ (.setPassword username hash) then Prog.ask (.respond .done)
  else .fail (.noUser username)

def disableUser (username : Text) : AccountAct Unit := do
  if ← Prog.try_ (.disableUser username) then Prog.ask (.respond .done)
  else .fail (.noUser username)

inductive Task
  | login (contentType : Option Text) (body : LoginBody)
  | request (cookies : List (Option Text))
  | logout (contentType : Option Text) (cookies : List (Option Text))
  | addUser (username password : Text)
  | changePassword (username password : Text)
  | disableUser (username : Text)

/-- A statement that may fail, and then changes nothing; `none` is one that is refused. -/
def Writes {α : Type} (s s' : Accounts) (outcome : Option (α × Accounts)) :
    Except AccountError α → Prop
  | .ok answer => outcome = some (answer, s')
  | .error _ => s' = s

def AccountCall.Step (crypto : Crypto) (s s' : Accounts) : {β : Type} → AccountCall β → β → Prop
  | _, .now, b => b = s.clock ∧ s' = s
  | _, .loginCandidate username, b => Writes s s' (some (s.loginCandidate username, s)) b
  | _, .verifyPassword password hash, b =>
    Writes s s' (some (crypto.verifyPassword password hash, s)) b
  | _, .hashPassword password, b =>
    s' = s ∧ ∀ hash, b = .ok hash → crypto.verifyPassword password hash = true
  | _, .newSessionToken, b =>
    s' = s ∧ ∀ token, b = .ok token → ∃ bytes, bytes.length = 32 ∧ token = hex bytes
  | _, .createSession user tokenHash expiresAt, b =>
    Writes s s' ((s.createSession user tokenHash expiresAt).map (Prod.mk ())) b
  | _, .sessionUser tokenHash at_, b => Writes s s' (some (s.sessionUser tokenHash at_, s)) b
  | _, .deleteSession tokenHash, b => Writes s s' (some ((), s.deleteSession tokenHash)) b
  | _, .createUser username hash, b => Writes s s' (s.createUser username hash) b
  | _, .setPassword username hash, b => Writes s s' (some (s.setPassword username hash)) b
  | _, .disableUser username, b => Writes s s' (some (s.disableUser username)) b
  | _, .respond _, _ => s' = s

def Task.body (crypto : Crypto) : Task → AccountAct Unit
  | .login contentType body => Auth.login crypto contentType body
  | .request cookies => Auth.request crypto cookies
  | .logout contentType cookies => Auth.logout crypto contentType cookies
  | .addUser username password => Auth.addUser username password
  | .changePassword username password => Auth.changePassword username password
  | .disableUser username => Auth.disableUser username

/-- The server's requests and the operator's commands, any number at once. A request may be
dropped and a command killed half way; the clock goes anywhere. -/
def site (crypto : Crypto) : Pool AccountCall AccountError Accounts where
  Task := Task
  body task := do
    task.body crypto
    pure none
  init s := s.users = [] ∧ s.sessions = []
  starts _ _ := True
  step _ c s b s' := c.Step crypto s s' b
  leave _ _ s := s
  mayLeave _ _ _ := True
  env s s' := ∃ clock, s' = { s with clock := clock }
  restart s s' := s' = s

end Hunter.Auth
