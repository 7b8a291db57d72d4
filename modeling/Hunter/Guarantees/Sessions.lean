import Hunter.Server.Accounts
set_option autoImplicit false

namespace Hunter.Auth
open Effect
open Function (update)

/-! Whom a session speaks for. -/

/-- The account a login has read, and the password found to match its hash. -/
structure Reading where
  user : CurrentUser
  hash : Text
  password : Option Text

/-- A login that opened a session: what it had read, at how many changes of the account's
password, and at how many it opened the session. -/
structure Opened where
  reading : Reading
  readAt : Nat
  openedAt : Nat

/-- The password changes of each account, what each thread has read and when, and who opened
which session, and how often each was logged out. -/
structure Notes where
  changes : Nat → Nat
  readings : Nat → Option Reading
  readAt : Nat → Nat
  opened : List UInt8 → Option Opened
  ended : List UInt8 → Nat

def Notes.empty : Notes where
  changes _ := 0
  readings _ := none
  readAt _ := 0
  opened _ := none
  ended _ := 0

namespace AccountCall

def reads (r : Option Reading) : {β : Type} → AccountCall β → β → Option Reading
  | _, .loginCandidate _ => fun b =>
    match b with
    | .ok found => found.map fun c => { user := c.1, hash := c.2, password := none }
    | .error _ => r
  | _, .verifyPassword password hash => fun b =>
    match b with
    | .ok true => r.map fun l => if l.hash = hash then { l with password := some password } else l
    | _ => r
  | _, _ => fun _ => r

def dates (notes : Notes) (i : Nat) : {β : Type} → AccountCall β → β → Nat
  | _, .loginCandidate _ => fun b =>
    match b with
    | .ok (some found) => notes.changes found.1.id
    | _ => notes.readAt i
  | _, _ => fun _ => notes.readAt i

def opens (notes : Notes) (i : Nat) : {β : Type} → AccountCall β → β →
    List UInt8 → Option Opened
  | _, .createSession user tokenHash _ => fun b =>
    match b with
    | .ok () => update notes.opened tokenHash
        ((notes.readings i).map fun r => ⟨r, notes.readAt i, notes.changes user.id⟩)
    | .error _ => notes.opened
  | _, _ => fun _ => notes.opened

def counts (s : Accounts) (changes : Nat → Nat) : {β : Type} → AccountCall β → β → Nat → Nat
  | _, .setPassword username _ => fun b =>
    match b, s.userId? username with
    | .ok true, some id => update changes id (changes id + 1)
    | _, _ => changes
  | _, _ => fun _ => changes

def ends (ended : List UInt8 → Nat) : {β : Type} → AccountCall β → β → List UInt8 → Nat
  | _, .deleteSession tokenHash => fun b =>
    match b with
    | .ok () => update ended tokenHash (ended tokenHash + 1)
    | .error _ => ended
  | _, _ => fun _ => ended

def seen {β : Type} (i : Nat) (c : AccountCall β) (s : Accounts) (b : β) (notes : Notes) :
    Notes where
  changes := c.counts s notes.changes b
  readings := update notes.readings i (c.reads (notes.readings i) b)
  readAt := update notes.readAt i (c.dates notes i b)
  opened := c.opens notes i b
  ended := c.ends notes.ended b

end AccountCall

def watched (crypto : Crypto) : Pool AccountCall AccountError (Accounts × Notes) :=
  (site crypto).watch Notes.empty fun i c s b _ notes => c.seen i s b notes

/-- A session is opened for the account read, a password found to match. -/
def AccountCall.allowed (r : Option Reading) : {β : Type} → AccountCall β → Prop
  | _, .createSession user _ _ => ∃ l, r = some l ∧ l.user = user ∧ l.password.isSome
  | _, _ => True

def protocol : Protocol AccountCall (Option Reading) where
  allows r c := c.allowed r
  answers _ _ := True
  next r c b := c.reads r b

section
variable {crypto : Crypto} {α : Type} {r : Option Reading}

theorem follows_try {c : AccountCall (Except AccountError α)}
    {Q : Except AccountError α → Option Reading → Prop} :
    Follows protocol r (Prog.try_ c) Q ↔ c.allowed r ∧ (∀ x, Q (.ok x) (c.reads r (.ok x))) ∧
      ∀ e, Q (.error e) (c.reads r (.error e)) := by
  refine and_congr_right fun _ => ⟨fun h => ⟨fun x => h (.ok x) trivial, fun e =>
    h (.error e) trivial⟩, fun h b _ => ?_⟩
  cases b with
  | ok x => exact h.1 x
  | error e => exact h.2 e

theorem follows_ask {c : AccountCall α} {Q : Except AccountError α → Option Reading → Prop} :
    Follows protocol r (Prog.ask c) Q ↔ c.allowed r ∧ ∀ b, Q (.ok b) (c.reads r b) :=
  and_congr_right fun _ => forall_congr' fun _ => ⟨fun h => h trivial, fun h _ => h⟩

abbrev Harmless (p : AccountAct α) : Prop := Quiet protocol (fun _ _ => True) p

theorem harmless_call {c : AccountCall α} (hc : ∀ r, c.allowed r) : Harmless (Prog.ask c) :=
  ⟨fun r => ⟨hc r, fun _ _ => trivial⟩, fun _ => trivial⟩

theorem harmless_try {c : AccountCall (Except AccountError α)} (hc : ∀ r, c.allowed r) :
    Harmless (Prog.try_ c) := by
  refine ⟨fun r => ⟨hc r, fun _ _ => trivial⟩, fun b => ?_⟩
  cases b <;> trivial

theorem harmless_postGate {contentType : Option Text} : Harmless (postGate contentType) := by
  unfold postGate
  split <;> trivial

theorem harmless_ensured {outcome : Except AccountError Unit} : Harmless (ensured outcome) := by
  cases outcome <;> trivial

theorem harmless_requireSession {cookies : List (Option Text)} :
    Harmless (requireSession crypto cookies) := by
  unfold requireSession
  split
  · trivial
  · refine quiet_bind (harmless_call fun _ => trivial) fun now => ?_
    refine quiet_bind (harmless_try fun _ => trivial) fun found => ?_
    cases found <;> trivial

theorem follows_login {contentType : Option Text} {body : LoginBody} :
    Follows protocol r (login crypto contentType body) fun _ _ => True := by
  unfold login
  have hfield : ∀ key value, Harmless (field key value) := fun key value => by
    cases value <;> trivial
  refine follows_bind.2 ((harmless_postGate.follows (fun _ => trivial)
    fun _ _ _ _ _ => trivial).mono fun gate r1 _ => ?_)
  cases gate with
  | error e => trivial
  | ok _ =>
  refine follows_bind.2 (((hfield _ _).follows (fun _ => trivial)
    fun _ _ _ _ _ => trivial).mono fun username r2 _ => ?_)
  cases username with
  | error e => trivial
  | ok username =>
  refine follows_bind.2 (((hfield _ _).follows (fun _ => trivial)
    fun _ _ _ _ _ => trivial).mono fun password r3 _ => ?_)
  cases password with
  | error e => trivial
  | ok password =>
  refine follows_bind.2 (follows_try.2 ⟨trivial, fun candidate => ?_, fun _ => trivial⟩)
  refine follows_bind.2 (follows_try.2 ⟨trivial, fun matches_ => ?_, fun _ => trivial⟩)
  cases candidate with
  | none => trivial
  | some found =>
    cases matches_ with
    | false => trivial
    | true =>
      -- the hash checked is the one read, so the reading now has its password
      refine follows_bind.2 (follows_try.2 ⟨trivial, fun token => ?_, fun _ => trivial⟩)
      refine follows_bind.2 (follows_ask.2 ⟨trivial, fun now => ?_⟩)
      refine follows_bind.2 (follows_try.2 ⟨?_, fun _ => ?_, fun _ => trivial⟩)
      · exact ⟨_, rfl, by simp, by simp⟩
      · dsimp only [onOk]
        split
        · trivial
        · exact follows_ask.2 ⟨trivial, fun _ => trivial⟩

theorem harmless_respond {response : Response} : Harmless (Prog.ask (.respond response)) :=
  harmless_call fun _ => trivial

theorem harmless_logout {contentType : Option Text} {cookies : List (Option Text)} :
    Harmless (logout crypto contentType cookies) := by
  refine quiet_bind harmless_requireSession fun _ => quiet_bind harmless_postGate fun _ => ?_
  split
  · exact quiet_bind (harmless_try fun _ => trivial) fun _ => harmless_respond
  · exact harmless_respond

theorem harmless_addUser {username password : Text} : Harmless (addUser username password) :=
  quiet_bind harmless_ensured fun _ => quiet_bind harmless_ensured fun _ =>
    quiet_bind (harmless_try fun _ => trivial) fun _ =>
      quiet_bind (harmless_try fun _ => trivial) fun _ => harmless_respond

theorem harmless_changePassword {username password : Text} :
    Harmless (changePassword username password) := by
  refine quiet_bind harmless_ensured fun _ =>
    quiet_bind (harmless_try fun _ => trivial) fun hash => ?_
  refine quiet_bind (harmless_try fun _ => trivial) fun changed => ?_
  cases changed
  · trivial
  · exact harmless_respond

theorem harmless_disableUser {username : Text} : Harmless (disableUser username) := by
  refine quiet_bind (harmless_try fun _ => trivial) fun disabled => ?_
  cases disabled
  · trivial
  · exact harmless_respond

theorem follows_task (task : Task) :
    Follows protocol none ((site crypto).body task) fun r _ => ∀ t, r ≠ .ok (some t) := by
  have hquiet : ∀ {p : AccountAct Unit}, Harmless p → Follows protocol none p fun _ _ => True :=
    fun h => h.follows (fun _ => trivial) fun _ _ _ _ _ => trivial
  refine follows_bind.2 (Follows.mono (Q := fun _ _ => True) ?_ fun outcome _ _ => ?_)
  · cases task with
    | login => exact follows_login
    | request => exact hquiet (quiet_bind harmless_requireSession fun _ => harmless_respond)
    | logout => exact hquiet harmless_logout
    | addUser => exact hquiet harmless_addUser
    | changePassword => exact hquiet harmless_changePassword
    | disableUser => exact hquiet harmless_disableUser
  · cases outcome <;> exact nofun

end

namespace Accounts
variable {s : Accounts} {id : Nat} {username : Text} {f : User → User}

@[simp] theorem users_endSessions : (s.endSessions id).users = s.users := rfl

@[simp] theorem mem_endSessions {x : Session} :
    x ∈ (s.endSessions id).sessions ↔ x ∈ s.sessions ∧ x.userId ≠ id := by
  simp [endSessions]

theorem users_modifyUser {k : Nat} : (s.modifyUser id f).users[k]? =
    if id = k then s.users[k]?.map f else s.users[k]? := by
  rw [modifyUser, List.getElem?_modify]
  split <;> simp

theorem loginCandidate_eq_some {found : CurrentUser × Text}
    (h : s.loginCandidate username = some found) : ∃ u, s.users[found.1.id]? = some u ∧
      u.username = found.1.username ∧ u.disabledAt = none ∧ u.passwordHash = found.2 := by
  simp only [loginCandidate, Option.bind_eq_bind, Option.bind_eq_some_iff] at h
  obtain ⟨id, -, u, hu, h⟩ := h
  split at h
  · cases h
  · rename_i henabled
    cases h
    exact ⟨u, hu, rfl, by simpa using henabled, rfl⟩

theorem createSession_eq_some {s' : Accounts} {user : CurrentUser} {tokenHash : List UInt8}
    {expiresAt : Int} (h : s.createSession user tokenHash expiresAt = some s') :
    s'.users = s.users ∧ (∀ x ∈ s.sessions, s.clock < x.expiresAt → x ∈ s'.sessions) ∧
      ∃ live, List.Sublist live s.sessions ∧
        s'.sessions = live ++ [⟨tokenHash, user.id, s.clock, expiresAt⟩] ∧
        ∀ y ∈ live, y.tokenHash ≠ tokenHash := by
  unfold createSession at h
  dsimp only at h
  split at h
  · cases h
  · rename_i hfree
    cases h
    refine ⟨rfl, fun x hx hlive => ?_, _, List.filter_sublist, rfl, fun y hy htoken => hfree ?_⟩
    · exact List.mem_append_left _ (List.mem_filter.2 ⟨hx, by simpa using hlive⟩)
    · exact List.any_eq_true.2 ⟨y, hy, by simp [htoken]⟩

theorem createUser_eq_some {s' : Accounts} {hash : Text}
    (h : s.createUser username hash = some (id, s')) :
    s'.sessions = s.sessions ∧ ∃ u, s'.users = s.users ++ [u] := by
  unfold createUser at h
  split at h
  · cases h
  · cases h
    exact ⟨rfl, _, rfl⟩

theorem sessionUser_eq_some {tokenHash : List UInt8} {now : Int} {user : CurrentUser}
    (h : s.sessionUser tokenHash now = some user) : ∃ x ∈ s.sessions, ∃ u,
      x.tokenHash = tokenHash ∧ x.userId = user.id ∧ now < x.expiresAt ∧
        s.users[user.id]? = some u ∧ u.username = user.username ∧ u.disabledAt = none := by
  simp only [sessionUser, Option.bind_eq_bind, Option.bind_eq_some_iff] at h
  obtain ⟨x, hx, u, hu, h⟩ := h
  split at h
  · rename_i hlive
    simp only [Bool.and_eq_true, decide_eq_true_eq, Option.isNone_iff_eq_none] at hlive
    cases h
    exact ⟨x, List.mem_of_find?_eq_some hx, u, by simpa using List.find?_some hx, rfl, hlive.1, hu,
      rfl, hlive.2⟩
  · cases h

end Accounts

section
variable {crypto : Crypto} {s s' : Accounts} {β : Type} {c : AccountCall β} {b : β} {id : Nat}
  {u : User} {changes : Nat → Nat}

theorem Writes.leaves {α : Type} {outcome : Option (α × Accounts)} {r : Except AccountError α}
    (h : Writes s s' outcome r) :
    (∃ answer, r = .ok answer ∧ outcome = some (answer, s')) ∨ s' = s := by
  cases r with
  | ok answer => exact Or.inl ⟨answer, rfl, h⟩
  | error => exact Or.inr h

theorem Writes.reads {α : Type} {answer : α} {r : Except AccountError α}
    (h : Writes s s' (some (answer, s)) r) : s' = s := by
  rcases h.leaves with ⟨answer', -, h⟩ | h
  · exact (congrArg Prod.snd (Option.some.inj h)).symm
  · exact h

/-- No account goes away, none is enabled again, and a new password is counted. -/
structure UserChange (c : AccountCall β) (s : Accounts) (b : β) (id : Nat) (u u' : User) :
    Prop where
  username : u'.username = u.username
  disabled : u.disabledAt.isSome → u'.disabledAt.isSome
  password : ∀ changes, c.counts s changes b id = changes id ∧ u'.passwordHash = u.passwordHash ∨
    c.counts s changes b id = changes id + 1

theorem UserChange.refl (hcounts : ∀ changes, c.counts s changes b = changes) :
    UserChange c s b id u u :=
  ⟨rfl, fun h => h, fun changes => Or.inl ⟨by rw [hcounts], rfl⟩⟩

theorem users_step (h : c.Step crypto s s' b) (hu : s.users[id]? = some u) :
    ∃ u', s'.users[id]? = some u' ∧ UserChange c s b id u u' := by
  cases c with
  | setPassword username hash =>
    cases b with
    | error e =>
      obtain rfl := h
      exact ⟨u, hu, .refl fun _ => rfl⟩
    | ok changed =>
      have h : s.setPassword username hash = (changed, s') := Option.some.inj h
      unfold Accounts.setPassword at h
      split at h
      · rename_i hnone
        cases h
        exact ⟨u, hu, .refl fun _ => rfl⟩
      · rename_i k hk
        cases h
        rw [Accounts.users_endSessions, Accounts.users_modifyUser]
        by_cases heq : k = id
        · subst heq
          refine ⟨{ u with passwordHash := hash }, by simp [hu], rfl, fun h => h, fun changes => ?_⟩
          exact Or.inr (by simp [AccountCall.counts, hk])
        · rw [if_neg heq]
          refine ⟨u, hu, rfl, fun h => h, fun changes => Or.inl ⟨?_, rfl⟩⟩
          simp [AccountCall.counts, hk, Function.update_of_ne (Ne.symm heq)]
  | disableUser username =>
    cases b with
    | error e =>
      obtain rfl := h
      exact ⟨u, hu, .refl fun _ => rfl⟩
    | ok changed =>
      have h : s.disableUser username = (changed, s') := Option.some.inj h
      unfold Accounts.disableUser at h
      split at h
      · cases h
        exact ⟨u, hu, .refl fun _ => rfl⟩
      · rename_i k hk
        cases h
        rw [Accounts.users_endSessions, Accounts.users_modifyUser]
        split
        · exact ⟨{ u with disabledAt := u.disabledAt.or (some s.clock) }, by simp [hu], rfl,
            fun _ => by simp, fun _ => Or.inl ⟨rfl, rfl⟩⟩
        · exact ⟨u, hu, .refl fun _ => rfl⟩
  | createUser username hash =>
    rcases h.leaves with ⟨k, rfl, h⟩ | rfl
    · obtain ⟨-, added, husers⟩ := Accounts.createUser_eq_some h
      refine ⟨u, ?_, .refl fun _ => rfl⟩
      rw [husers, List.getElem?_append_left (List.getElem?_eq_some_iff.1 hu).1]
      exact hu
    · exact ⟨u, hu, .refl fun _ => rfl⟩
  | createSession user tokenHash expiresAt =>
    rcases h.leaves with ⟨_, rfl, h⟩ | rfl
    · obtain ⟨t, ht, hs'⟩ := Option.map_eq_some_iff.1 h
      cases hs'
      rw [(Accounts.createSession_eq_some ht).1]
      exact ⟨u, hu, .refl fun _ => rfl⟩
    · exact ⟨u, hu, .refl fun _ => rfl⟩
  | deleteSession tokenHash =>
    rcases h.leaves with ⟨_, rfl, h⟩ | rfl
    · cases h
      exact ⟨u, hu, .refl fun _ => rfl⟩
    · exact ⟨u, hu, .refl fun _ => rfl⟩
  | now =>
    obtain ⟨-, rfl⟩ := h
    exact ⟨u, hu, .refl fun _ => rfl⟩
  | hashPassword | newSessionToken =>
    obtain ⟨rfl, -⟩ := h
    exact ⟨u, hu, .refl fun _ => rfl⟩
  | loginCandidate | verifyPassword | sessionUser =>
    obtain rfl := Writes.reads h
    exact ⟨u, hu, .refl fun _ => rfl⟩
  | respond =>
    obtain rfl : s' = s := h
    exact ⟨u, hu, .refl fun _ => rfl⟩

end

/-- An account's row has the hash that was read, unless its password has changed since. -/
structure Reading.Fair (crypto : Crypto) (s : Accounts) (changes : Nat → Nat) (readAt : Nat)
    (r : Reading) : Prop where
  account : ∃ u, s.users[r.user.id]? = some u ∧
    (readAt = changes r.user.id → u.passwordHash = r.hash)
  dated : readAt ≤ changes r.user.id
  matched : ∀ password, r.password = some password →
    crypto.verifyPassword password r.hash = true

/-- Who opened a session had found the password to match, and it has not changed since. -/
structure Opened.Fair (crypto : Crypto) (s : Accounts) (changes : Nat → Nat) (x : Session)
    (o : Opened) : Prop where
  user : o.reading.user.id = x.userId
  reading : o.reading.Fair crypto s changes o.readAt
  matched : o.reading.password.isSome
  current : o.openedAt = changes x.userId

structure Sound (crypto : Crypto) (n : Nat) (x : Accounts × Notes) : Prop where
  unread : ∀ i, n ≤ i → x.2.readings i = none
  readings : ∀ i r, x.2.readings i = some r → r.Fair crypto x.1 x.2.changes (x.2.readAt i)
  sessions : ∀ y ∈ x.1.sessions, ∃ o, x.2.opened y.tokenHash = some o ∧
    o.Fair crypto x.1 x.2.changes y
  unique : (x.1.sessions.map Session.tokenHash).Nodup

section
variable {crypto : Crypto} {s s' : Accounts} {notes : Notes} {β : Type} {c : AccountCall β} {b : β}
  {i : Nat} {r : Reading} {readAt : Nat} {changes : Nat → Nat}

theorem Reading.Fair.step (h : r.Fair crypto s changes readAt) (hstep : c.Step crypto s s' b) :
    r.Fair crypto s' (c.counts s changes b) readAt := by
  obtain ⟨u, hu, hhash⟩ := h.account
  obtain ⟨u', hu', hchange⟩ := users_step hstep hu
  have hdated := h.dated
  rcases hchange.password changes with ⟨hcount, hsame⟩ | hcount
  · refine ⟨⟨u', hu', fun hread => ?_⟩, by omega, h.matched⟩
    rw [hsame]
    exact hhash (hread.trans hcount)
  · exact ⟨⟨u', hu', fun hread => by omega⟩, by omega, h.matched⟩

/-- What a thread reads now is so, and what it had read stays so. -/
theorem fair_reads (hold : ∀ r, notes.readings i = some r →
      r.Fair crypto s notes.changes (notes.readAt i))
    (hstep : c.Step crypto s s' b) (hr : c.reads (notes.readings i) b = some r) :
    r.Fair crypto s' (c.counts s notes.changes b) (c.dates notes i b) := by
  cases c with
  | loginCandidate username =>
    obtain rfl := Writes.reads hstep
    cases b with
    | error e => exact hold r hr
    | ok found =>
      obtain ⟨c, rfl, rfl⟩ := Option.map_eq_some_iff.1 hr
      have hfound : s'.loginCandidate username = some c := congrArg Prod.fst (Option.some.inj hstep)
      obtain ⟨u, hu, -, -, hhash⟩ := Accounts.loginCandidate_eq_some hfound
      exact ⟨⟨u, hu, fun _ => hhash⟩, le_refl _, nofun⟩
  | verifyPassword password hash =>
    obtain rfl := Writes.reads hstep
    cases b with
    | error e => exact hold r hr
    | ok matched =>
      cases matched with
      | false => exact hold r hr
      | true =>
        obtain ⟨l, hl, rfl⟩ := Option.map_eq_some_iff.1 hr
        have hfair := hold l hl
        split
        · rename_i heq
          refine ⟨hfair.account, hfair.dated, fun p hp => ?_⟩
          cases hp
          rw [heq]
          exact congrArg Prod.fst (Option.some.inj hstep)
        · exact hfair
  | _ => exact (hold r hr).step hstep

/-- A session after a step is one from before whose account has the same password, or one the
thread has opened for the account it has read. -/
theorem sessions_step {x : Session} (hallow : c.allowed (notes.readings i))
    (h : c.Step crypto s s' b) (hx : x ∈ s'.sessions) :
    (x ∈ s.sessions ∧ c.opens notes i b x.tokenHash = notes.opened x.tokenHash ∧
      c.counts s notes.changes b x.userId = notes.changes x.userId) ∨
    ∃ r, notes.readings i = some r ∧ r.password.isSome ∧ r.user.id = x.userId ∧
      c.opens notes i b x.tokenHash = some ⟨r, notes.readAt i, notes.changes x.userId⟩ ∧
      c.counts s notes.changes b = notes.changes := by
  cases c with
  | createSession user tokenHash expiresAt =>
    cases b with
    | error e =>
      obtain rfl := h
      exact Or.inl ⟨hx, rfl, rfl⟩
    | ok =>
      obtain ⟨t, ht, hs'⟩ := Option.map_eq_some_iff.1 h
      cases hs'
      obtain ⟨-, -, live, hlive, hsessions, hother⟩ := Accounts.createSession_eq_some ht
      rw [hsessions] at hx
      rcases List.mem_append.1 hx with hold | hnew
      · exact Or.inl ⟨hlive.subset hold, Function.update_of_ne (hother x hold) _ _, rfl⟩
      · obtain rfl := List.mem_singleton.1 hnew
        obtain ⟨r, hr, rfl, hmatched⟩ := hallow
        exact Or.inr ⟨r, hr, hmatched, rfl, by simp [AccountCall.opens, hr], rfl⟩
  | setPassword username hash =>
    cases b with
    | error e =>
      obtain rfl := h
      exact Or.inl ⟨hx, rfl, rfl⟩
    | ok changed =>
      have h : s.setPassword username hash = (changed, s') := Option.some.inj h
      unfold Accounts.setPassword at h
      split at h
      · cases h
        exact Or.inl ⟨hx, rfl, rfl⟩
      · rename_i k hk
        cases h
        obtain ⟨hold, hother⟩ := Accounts.mem_endSessions.1 hx
        exact Or.inl ⟨hold, rfl, by simp [AccountCall.counts, hk, Function.update_of_ne hother]⟩
  | disableUser username =>
    cases b with
    | error e =>
      obtain rfl := h
      exact Or.inl ⟨hx, rfl, rfl⟩
    | ok changed =>
      have h : s.disableUser username = (changed, s') := Option.some.inj h
      unfold Accounts.disableUser at h
      split at h
      · cases h
        exact Or.inl ⟨hx, rfl, rfl⟩
      · cases h
        exact Or.inl ⟨(Accounts.mem_endSessions.1 hx).1, rfl, rfl⟩
  | createUser username hash =>
    rcases h.leaves with ⟨k, rfl, h⟩ | rfl
    · rw [(Accounts.createUser_eq_some h).1] at hx
      exact Or.inl ⟨hx, rfl, rfl⟩
    · exact Or.inl ⟨hx, rfl, rfl⟩
  | deleteSession tokenHash =>
    rcases h.leaves with ⟨_, rfl, h⟩ | rfl
    · cases h
      exact Or.inl ⟨(List.mem_filter.1 hx).1, rfl, rfl⟩
    · exact Or.inl ⟨hx, rfl, rfl⟩
  | now =>
    obtain ⟨-, rfl⟩ := h
    exact Or.inl ⟨hx, rfl, rfl⟩
  | hashPassword | newSessionToken =>
    obtain ⟨rfl, -⟩ := h
    exact Or.inl ⟨hx, rfl, rfl⟩
  | loginCandidate | verifyPassword | sessionUser =>
    obtain rfl := Writes.reads h
    exact Or.inl ⟨hx, rfl, rfl⟩
  | respond =>
    obtain rfl : s' = s := h
    exact Or.inl ⟨hx, rfl, rfl⟩

/-- The sessions left, but for one opened under a hash none of them has. -/
theorem sessions_left (h : c.Step crypto s s' b) : List.Sublist s'.sessions s.sessions ∨
    ∃ live x, List.Sublist live s.sessions ∧ s'.sessions = live ++ [x] ∧
      ∀ y ∈ live, y.tokenHash ≠ x.tokenHash := by
  cases c with
  | createSession user tokenHash expiresAt =>
    rcases h.leaves with ⟨_, rfl, h⟩ | rfl
    · obtain ⟨t, ht, hs'⟩ := Option.map_eq_some_iff.1 h
      cases hs'
      obtain ⟨-, -, live, hlive, hsessions, hother⟩ := Accounts.createSession_eq_some ht
      exact Or.inr ⟨live, _, hlive, hsessions, hother⟩
    · exact Or.inl (List.Sublist.refl _)
  | setPassword username hash =>
    rcases h.leaves with ⟨changed, rfl, h⟩ | rfl
    · have h : s.setPassword username hash = (changed, s') := Option.some.inj h
      unfold Accounts.setPassword at h
      split at h <;> cases h
      · exact Or.inl (List.Sublist.refl _)
      · exact Or.inl List.filter_sublist
    · exact Or.inl (List.Sublist.refl _)
  | disableUser username =>
    rcases h.leaves with ⟨changed, rfl, h⟩ | rfl
    · have h : s.disableUser username = (changed, s') := Option.some.inj h
      unfold Accounts.disableUser at h
      split at h <;> cases h
      · exact Or.inl (List.Sublist.refl _)
      · exact Or.inl List.filter_sublist
    · exact Or.inl (List.Sublist.refl _)
  | createUser username hash =>
    rcases h.leaves with ⟨k, rfl, h⟩ | rfl
    · rw [(Accounts.createUser_eq_some h).1]
      exact Or.inl (List.Sublist.refl _)
    · exact Or.inl (List.Sublist.refl _)
  | deleteSession tokenHash =>
    rcases h.leaves with ⟨_, rfl, h⟩ | rfl
    · cases h
      exact Or.inl List.filter_sublist
    · exact Or.inl (List.Sublist.refl _)
  | now =>
    obtain ⟨-, rfl⟩ := h
    exact Or.inl (List.Sublist.refl _)
  | hashPassword | newSessionToken =>
    obtain ⟨rfl, -⟩ := h
    exact Or.inl (List.Sublist.refl _)
  | loginCandidate | verifyPassword | sessionUser =>
    obtain rfl := Writes.reads h
    exact Or.inl (List.Sublist.refl _)
  | respond =>
    obtain rfl : s' = s := h
    exact Or.inl (List.Sublist.refl _)

theorem unique_step (h : c.Step crypto s s' b) (hu : (s.sessions.map Session.tokenHash).Nodup) :
    (s'.sessions.map Session.tokenHash).Nodup := by
  rcases sessions_left h with hleft | ⟨live, x, hleft, hsessions, hother⟩
  · exact hu.sublist (hleft.map _)
  · rw [hsessions, List.map_append, List.map_singleton, List.nodup_append]
    refine ⟨hu.sublist (hleft.map _), by simp, ?_⟩
    intro a ha t ht
    obtain ⟨y, hy, rfl⟩ := List.mem_map.1 ha
    rw [List.mem_singleton.1 ht]
    exact hother y hy

/-- What takes a live session away is a logout, a new password or the account's end. -/
theorem session_kept {x : Session} {u : User} (hx : x ∈ s.sessions)
    (hu : s.users[x.userId]? = some u) (h : c.Step crypto s s' b) (hlive : s.clock < x.expiresAt)
    (hended : c.ends notes.ended b x.tokenHash = notes.ended x.tokenHash)
    (hcounts : c.counts s notes.changes b x.userId = notes.changes x.userId)
    (henabled : ∀ u', s'.users[x.userId]? = some u' → u'.disabledAt = none) : x ∈ s'.sessions := by
  cases c with
  | createSession user tokenHash expiresAt =>
    rcases h.leaves with ⟨_, rfl, h⟩ | rfl
    · obtain ⟨t, ht, hs'⟩ := Option.map_eq_some_iff.1 h
      cases hs'
      exact (Accounts.createSession_eq_some ht).2.1 x hx hlive
    · exact hx
  | setPassword username hash =>
    rcases h.leaves with ⟨changed, rfl, h⟩ | rfl
    · have h : s.setPassword username hash = (changed, s') := Option.some.inj h
      unfold Accounts.setPassword at h
      split at h
      · cases h
        exact hx
      · rename_i k hk
        cases h
        refine Accounts.mem_endSessions.2 ⟨hx, ?_⟩
        rintro rfl
        simp [AccountCall.counts, hk] at hcounts
    · exact hx
  | disableUser username =>
    rcases h.leaves with ⟨changed, rfl, h⟩ | rfl
    · have h : s.disableUser username = (changed, s') := Option.some.inj h
      unfold Accounts.disableUser at h
      split at h
      · cases h
        exact hx
      · cases h
        refine Accounts.mem_endSessions.2 ⟨hx, ?_⟩
        rintro rfl
        have hdisabled := henabled { u with disabledAt := u.disabledAt.or (some s.clock) } (by
          rw [Accounts.users_endSessions, Accounts.users_modifyUser, if_pos rfl, hu]
          rfl)
        simp at hdisabled
    · exact hx
  | createUser username hash =>
    rcases h.leaves with ⟨k, rfl, h⟩ | rfl
    · rw [(Accounts.createUser_eq_some h).1]
      exact hx
    · exact hx
  | deleteSession tokenHash =>
    rcases h.leaves with ⟨_, rfl, h⟩ | rfl
    · cases h
      refine List.mem_filter.2 ⟨hx, ?_⟩
      simp only [ne_eq, decide_not, Bool.not_eq_true', decide_eq_false_iff_not]
      rintro rfl
      simp [AccountCall.ends] at hended
    · exact hx
  | now =>
    obtain ⟨-, rfl⟩ := h
    exact hx
  | hashPassword | newSessionToken =>
    obtain ⟨rfl, -⟩ := h
    exact hx
  | loginCandidate | verifyPassword | sessionUser =>
    obtain rfl := Writes.reads h
    exact hx
  | respond =>
    obtain rfl : s' = s := h
    exact hx

theorem sound_call {n : Nat} (hlt : i < n) (hallow : c.allowed (notes.readings i))
    (hsound : Sound crypto n (s, notes)) (h : c.Step crypto s s' b) :
    Sound crypto n (s', c.seen i s b notes) where
  unread j hj := by
    dsimp only [AccountCall.seen]
    rw [Function.update_of_ne (by omega)]
    exact hsound.unread j hj
  readings j r hr := by
    by_cases hj : j = i
    · subst hj
      simp only [AccountCall.seen, Function.update_self] at hr ⊢
      exact fair_reads (hsound.readings j) h hr
    · simp only [AccountCall.seen, Function.update_of_ne hj] at hr ⊢
      exact (hsound.readings j r hr).step h
  sessions x hx := by
    rcases sessions_step hallow h hx with ⟨hold, hopens, hcounts⟩ | ⟨r, hr, hmatched, huser, hopens,
      hcounts⟩
    · obtain ⟨o, ho, hfair⟩ := hsound.sessions x hold
      exact ⟨o, hopens.trans ho, hfair.user, hfair.reading.step h, hfair.matched,
        hfair.current.trans hcounts.symm⟩
    · refine ⟨_, hopens, huser, (hsound.readings i r hr).step h, hmatched, ?_⟩
      exact (congrFun hcounts x.userId).symm
  unique := unique_step h hsound.unique

end

theorem sound_moved {crypto : Crypto} {n : Nat} {s : Accounts} {notes : Notes} (clock : Int)
    (h : Sound crypto n (s, notes)) : Sound crypto n ({ s with clock := clock }, notes) :=
  ⟨h.unread, fun i r hr =>
    have hfair := h.readings i r hr
    ⟨hfair.account, hfair.dated, hfair.matched⟩, fun x hx =>
    have ⟨o, ho, hfair⟩ := h.sessions x hx
    ⟨o, ho, hfair.user, ⟨hfair.reading.account, hfair.reading.dated, hfair.reading.matched⟩,
      hfair.matched, hfair.current⟩, h.unique⟩

def follower (crypto : Crypto) : (watched crypto).Follower protocol where
  entry _ := none
  ready _ _ := False
  mayEnd _ := True
  answers _ _ _ _ _ _ := trivial
  follows task := (follows_task task).mono fun _ _ hends =>
    Pool.ending_of (fun t ht => hends t ht) trivial

theorem sound_invariant (crypto : Crypto) : (watched crypto).Invariant (follower crypto)
    (Sound crypto) fun r i x => r = x.2.readings i where
  init s hs := by
    obtain ⟨s, notes⟩ := s
    obtain ⟨⟨-, hsessions⟩, hnotes⟩ := hs
    cases hnotes
    have hnone : s.sessions = [] := hsessions
    refine ⟨fun _ _ => rfl, nofun, fun x hx => ?_, ?_⟩
    · rw [hnone] at hx
      cases hx
    · rw [hnone]
      exact List.nodup_nil
  start n t s _ hsound :=
    ⟨⟨fun i hi => hsound.unread i (by omega), hsound.readings, hsound.sessions, hsound.unique⟩,
      (hsound.unread n (le_refl n)).symm⟩
  call n i r c s b s' hlt hallow hsound hr h := by
    subst hr
    obtain ⟨s, notes⟩ := s
    obtain ⟨s', notes'⟩ := s'
    obtain ⟨h, hnotes⟩ := h
    cases hnotes
    refine ⟨sound_call hlt hallow hsound h, ?_⟩
    exact (Function.update_self i (c.reads (notes.readings i) b) notes.readings).symm
  frame n i j r r' c s b s' hij _ _ _ hr' h := by
    rw [h.2, hr']
    exact (Function.update_of_ne hij.symm _ _).symm
  go r t i s hready := hready.elim
  leave n i r p s _ _ hsound _ := ⟨hsound, fun _ _ _ h => h⟩
  env n s s' hsound henv := by
    obtain ⟨s', notes⟩ := s'
    obtain ⟨⟨clock, rfl⟩, rfl⟩ := henv
    exact ⟨sound_moved clock hsound, fun _ _ h => h⟩
  restart n s s' hsound hre := by
    obtain ⟨s', notes⟩ := s'
    obtain ⟨rfl, rfl⟩ := hre
    exact hsound

theorem sound_reachable {crypto : Crypto} {x : Pool.Config (watched crypto)}
    (hx : (watched crypto).Reachable x) : Sound crypto x.next x.state :=
  ((sound_invariant crypto).reachable hx).1

/-- A request is served as `user` only under a session opened by a login that read the row of that
account and checked the password against its hash. The password had been changed for the last time
before the session was opened, so it is still the account's unless a change overtook that login. -/
theorem session_owner {crypto : Crypto} {x : Pool.Config (watched crypto)}
    (hx : (watched crypto).Reachable x) {tokenHash : List UInt8} {now : Int} {user : CurrentUser}
    (h : x.state.1.sessionUser tokenHash now = some user) :
    ∃ o password u, x.state.2.opened tokenHash = some o ∧ o.reading.user.id = user.id ∧
      o.reading.password = some password ∧
      crypto.verifyPassword password o.reading.hash = true ∧
      o.readAt ≤ o.openedAt ∧ o.openedAt = x.state.2.changes user.id ∧
      x.state.1.users[user.id]? = some u ∧ u.username = user.username ∧ u.disabledAt = none ∧
      (o.readAt = o.openedAt → crypto.verifyPassword password u.passwordHash = true) := by
  obtain ⟨y, hy, u, rfl, huser, hlive, hu, hname, henabled⟩ := Accounts.sessionUser_eq_some h
  obtain ⟨o, ho, hfair⟩ := (sound_reachable hx).sessions y hy
  obtain ⟨password, hpassword⟩ := Option.isSome_iff_exists.1 hfair.matched
  have hmatched := hfair.reading.matched password hpassword
  have hid : o.reading.user.id = user.id := hfair.user.trans huser
  have hcurrent := hfair.current
  rw [huser] at hcurrent
  obtain ⟨u', hu', hhash⟩ := hfair.reading.account
  have hdated := hfair.reading.dated
  rw [hid] at hu' hhash hdated
  obtain rfl : u = u' := Option.some.inj (hu.symm.trans hu')
  refine ⟨o, password, u, ho, hid, hpassword, hmatched, ?_, hcurrent, hu, hname, henabled,
    fun hread => ?_⟩
  · rw [hcurrent]
    exact hdated
  · rw [hhash (hread.trans hcurrent)]
    exact hmatched

/-! A login that a new password overtakes: its session is honoured, under the old one. -/

def plain : Crypto where
  tokenHash token := token.map fun c => c.toNat.toUInt8
  verifyPassword password hash := hash = 'h' :: password

def ann : CurrentUser := { id := 0, username := ['a', 'n', 'n'] }
def oldPassword : Text := List.replicate 12 'x'
def newPassword : Text := List.replicate 12 'y'
def aToken : Text := hex (List.replicate 32 7)

def added : Accounts where
  users :=
    [{ username := ann.username, passwordHash := 'h' :: oldPassword, createdAt := 0
       disabledAt := none }]
  sessions := []
  clock := 0

def overtaken : Accounts where
  users :=
    [{ username := ann.username, passwordHash := 'h' :: newPassword, createdAt := 0
       disabledAt := none }]
  sessions := [⟨plain.tokenHash aToken, 0, 0, sessionTtlMs⟩]
  clock := 0

def annsLogin : Task :=
  .login (some "application/json".toList) ⟨some ann.username, some oldPassword⟩

theorem watched_start {threads : Nat → Option (Prog AccountCall AccountError (Option Task))}
    {n : Nat}
    {s : Accounts} {notes : Notes} (task : Task)
    (h : (watched plain).Reachable ⟨threads, n, s, notes⟩) : (watched plain).Reachable
      ⟨update threads n (some ((watched plain).body task)), n + 1, s, notes⟩ :=
  h.step (.start trivial)

theorem watched_call {threads : Nat → Option (Prog AccountCall AccountError (Option Task))}
    {n i : Nat} {s s' : Accounts} {notes : Notes} {β : Type} {c : AccountCall β} {b : β}
    {k : β → Prog AccountCall AccountError (Option Task)}
    (h : (watched plain).Reachable ⟨update threads i (some (.call c k)), n, s, notes⟩)
    (hstep : c.Step plain s s' b) : (watched plain).Reachable
      ⟨update threads i (some (k b)), n, s', c.seen i s b notes⟩ :=
  h.call ⟨hstep, rfl⟩

theorem watched_leads {threads : Nat → Option (Prog AccountCall AccountError (Option Task))}
    {n i : Nat} {s s' : Accounts} {notes : Notes} {β : Type} {c : AccountCall β} {b : β}
    {k : β → Prog AccountCall AccountError (Option Task)} (hstep : c.Step plain s s' b) :
    (watched plain).Leads (fun _ _ => True)
      ⟨update threads i (some (.call c k)), n, s, notes⟩
      ⟨update (update threads i (some (.call c k))) i (some (k b)), n, s', c.seen i s b notes⟩ :=
  .step .refl (.call (Function.update_self i _ _) ⟨hstep, rfl⟩) trivial

theorem login_awaits : ∃ threads notes k,
    (watched plain).Reachable ⟨update threads 1
      (some (.call (.createSession ann (plain.tokenHash aToken) sessionTtlMs) k)), 2, added,
      notes⟩ ∧
      notes.readings 1 = some ⟨ann, 'h' :: oldPassword, some oldPassword⟩ ∧ notes.readAt 1 = 0 ∧
      notes.changes ann.id = 0 := by
  have h : (watched plain).Reachable ⟨fun _ => none, 0, ⟨[], [], 0⟩, Notes.empty⟩ :=
    .start ⟨⟨rfl, rfl⟩, rfl⟩
  have h := watched_start (.addUser ann.username oldPassword) h
  have h := watched_call (c := .hashPassword _) (b := .ok ('h' :: oldPassword)) h
    ⟨rfl, fun _ h => by cases h; rfl⟩
  have h := watched_call (c := .createUser _ _) (b := .ok 0) h rfl
  have h := watched_start annsLogin h
  have h := watched_call (c := .loginCandidate _) (b := .ok (some (ann, 'h' :: oldPassword))) h rfl
  have h := watched_call (c := .verifyPassword _ _) (b := .ok true) h rfl
  have h := watched_call (c := .newSessionToken) (b := .ok aToken) h
    ⟨rfl, fun _ h => by cases h; exact ⟨_, rfl, rfl⟩⟩
  have h := watched_call (c := .now) (b := 0) h ⟨rfl, rfl⟩
  exact ⟨_, _, _, h, rfl, rfl, rfl⟩

theorem overtaken_reachable : ∃ threads notes o,
    (watched plain).Reachable ⟨threads, 3, overtaken, notes⟩ ∧
      notes.opened (plain.tokenHash aToken) = some o ∧ o.readAt < o.openedAt ∧
      o.reading.password = some oldPassword := by
  obtain ⟨threads, notes, k, h, hreading, hread, hchanges⟩ := login_awaits
  have h := watched_start (.changePassword ann.username newPassword) h
  have h := watched_call (c := .hashPassword _) (b := .ok ('h' :: newPassword)) h
    ⟨rfl, fun _ h => by cases h; rfl⟩
  have h := watched_call (c := .setPassword _ _) (b := .ok true) h rfl
  rw [Function.update_comm (by decide)] at h
  have h := watched_call (c := .createSession _ _ _) (b := .ok ()) h rfl
  refine ⟨_, _, ⟨⟨ann, 'h' :: oldPassword, some oldPassword⟩, 0, 1⟩, h, ?_, by decide, rfl⟩
  have hopened : AccountCall.counts added notes.changes
      (.setPassword ann.username ('h' :: newPassword)) (.ok true) ann.id = 1 :=
    congrArg (· + 1) hchanges
  simp [AccountCall.seen, AccountCall.opens, AccountCall.reads, AccountCall.dates, hreading, hread]
  exact hopened

theorem overtaken_owner : ∃ x o password u, (watched plain).Reachable x ∧
    x.state.1.sessionUser (plain.tokenHash aToken) 0 = some ann ∧
    x.state.2.opened (plain.tokenHash aToken) = some o ∧ o.reading.password = some password ∧
    plain.verifyPassword password o.reading.hash = true ∧ o.openedAt = x.state.2.changes ann.id ∧
    o.readAt < o.openedAt ∧ x.state.1.users[ann.id]? = some u ∧
    plain.verifyPassword password u.passwordHash = false := by
  obtain ⟨threads, notes, o, h, ho, hlate, hold⟩ := overtaken_reachable
  have hhonoured : overtaken.sessionUser (plain.tokenHash aToken) 0 = some ann := by decide
  obtain ⟨o', password, u, ho', -, hpassword, hmatched, -, hcurrent, hu, -⟩ :=
    session_owner h hhonoured
  cases ho.symm.trans ho'
  cases hold.symm.trans hpassword
  cases hu
  exact ⟨_, o, _, _, h, hhonoured, ho, hold, hmatched, hcurrent, hlate, rfl, by decide⟩

section
variable {crypto : Crypto} {x y : Pool.Config (watched crypto)}

/-- What a step of the whole does to the accounts and the notes is one call of one thread. -/
theorem step_cases (h : (watched crypto).Step x y) :
    (∃ (i : Nat) (β : Type) (c : AccountCall β) (b : β),
      c.Step crypto x.state.1 y.state.1 b ∧ y.state.2 = c.seen i x.state.1 b x.state.2) ∨
    y.state.1.users = x.state.1.users ∧ y.state.1.sessions = x.state.1.sessions ∧
      y.state.2 = x.state.2 := by
  cases h with
  | @call _ _ i _ _ β c _ b _ h => exact Or.inl ⟨i, β, c, b, h.1, h.2⟩
  | start | go | leave => exact Or.inr ⟨rfl, rfl, rfl⟩
  | @env _ _ _ s' h =>
    obtain ⟨s', notes⟩ := s'
    obtain ⟨⟨clock, rfl⟩, rfl⟩ := h
    exact Or.inr ⟨rfl, rfl, rfl⟩
  | restart h => exact Or.inr ⟨congrArg Accounts.users h.1, congrArg Accounts.sessions h.1, h.2⟩

theorem user_step {id : Nat} {u : User} (h : (watched crypto).Step x y)
    (hu : x.state.1.users[id]? = some u) :
    ∃ u', y.state.1.users[id]? = some u' ∧ u'.username = u.username ∧
      (u.disabledAt.isSome → u'.disabledAt.isSome) := by
  rcases step_cases h with ⟨i, β, c, b, hstep, -⟩ | ⟨husers, -, -⟩
  · obtain ⟨u', hu', hchange⟩ := users_step hstep hu
    exact ⟨u', hu', hchange.username, hchange.disabled⟩
  · exact ⟨u, by rw [husers]; exact hu, rfl, fun h => h⟩

/-- A disabled account is never let in again: no session speaks for it and it may not log in,
whatever was under way. -/
theorem disabled_for_good {keep : Accounts × Notes → Accounts × Notes → Prop} {id : Nat} {u : User}
    (hu : x.state.1.users[id]? = some u) (hdisabled : u.disabledAt.isSome)
    (hy : (watched crypto).Leads keep x y) :
    (∀ tokenHash now user, y.state.1.sessionUser tokenHash now = some user → user.id ≠ id) ∧
      ∀ username found, y.state.1.loginCandidate username = some found → found.1.id ≠ id := by
  have hkept : ∃ u', y.state.1.users[id]? = some u' ∧ u'.disabledAt.isSome := by
    induction hy with
    | refl => exact ⟨u, hu, hdisabled⟩
    | step _ hstep _ ih =>
      obtain ⟨u', hu', hdisabled'⟩ := ih
      obtain ⟨u'', hu'', -, hstill⟩ := user_step hstep hu'
      exact ⟨u'', hu'', hstill hdisabled'⟩
  obtain ⟨u', hu', hdisabled'⟩ := hkept
  refine ⟨fun tokenHash now user h heq => ?_, fun username found h heq => ?_⟩
  · obtain ⟨_, _, v, -, -, -, hv, -, henabled⟩ := Accounts.sessionUser_eq_some h
    rw [heq, hu'] at hv
    cases hv
    simp [henabled] at hdisabled'
  · obtain ⟨v, hv, -, henabled, -⟩ := Accounts.loginCandidate_eq_some h
    rw [heq, hu'] at hv
    cases hv
    simp [henabled] at hdisabled'

def barred : Accounts where
  users :=
    [{ username := ann.username, passwordHash := 'h' :: oldPassword, createdAt := 0
       disabledAt := some 0 }]
  sessions := [⟨plain.tokenHash aToken, 0, 0, sessionTtlMs⟩]
  clock := 0

/-- A login under way when its account is disabled opens a session that is never honoured. -/
theorem disabled_login : ∃ x y, (watched plain).Reachable x ∧
    (watched plain).Leads (fun _ _ => True) x y ∧ y.state.1.sessions ≠ [] ∧
      ∀ tokenHash now user, y.state.1.sessionUser tokenHash now = some user → user.id ≠ ann.id := by
  obtain ⟨threads, notes, k, h, -⟩ := login_awaits
  have h := watched_start (.disableUser ann.username) h
  have h := watched_call (c := .disableUser _) (b := .ok true) h rfl
  rw [Function.update_comm (by decide)] at h
  have hopen : (AccountCall.createSession ann (plain.tokenHash aToken) sessionTtlMs).Step plain
    (added.disableUser ann.username).2 barred (.ok ()) := rfl
  exact ⟨_, _, h, watched_leads hopen, List.cons_ne_nil _ _,
    (disabled_for_good rfl rfl (watched_leads hopen)).1⟩

/-- Nothing ends the session: the clock stays before its end, it is not logged out, and its
account keeps its password and is not disabled. -/
structure Undisturbed (session : Session) (s s' : Accounts × Notes) : Prop where
  unexpired : s.1.clock < session.expiresAt
  ended : s'.2.ended session.tokenHash = s.2.ended session.tokenHash
  changes : s'.2.changes session.userId = s.2.changes session.userId
  enabled : ∀ u, s'.1.users[session.userId]? = some u → u.disabledAt = none

theorem session_stays {session : Session} {u : User} (hsession : session ∈ x.state.1.sessions)
    (hu : x.state.1.users[session.userId]? = some u)
    (hy : (watched crypto).Leads (Undisturbed session) x y) :
    session ∈ y.state.1.sessions ∧ ∃ u', y.state.1.users[session.userId]? = some u' ∧
      u'.username = u.username ∧ (u.disabledAt = none → u'.disabledAt = none) := by
  induction hy with
  | refl => exact ⟨hsession, u, hu, rfl, fun h => h⟩
  | step _ hstep hkeep ih =>
    obtain ⟨hin, u', hu', hname, -⟩ := ih
    obtain ⟨u'', hu'', hname', -⟩ := user_step hstep hu'
    refine ⟨?_, u'', hu'', hname'.trans hname, fun _ => hkeep.enabled u'' hu''⟩
    rcases step_cases hstep with ⟨i, β, c, b, h, hnotes⟩ | ⟨-, hsessions, -⟩
    · have hended := hkeep.ended
      have hchanges := hkeep.changes
      rw [hnotes] at hended hchanges
      exact session_kept hin hu' h hkeep.unexpired hended hchanges hkeep.enabled
    · rw [hsessions]
      exact hin

theorem Sound.sessionUser {crypto : Crypto} {n : Nat} {s : Accounts × Notes} {session : Session}
    {u : User} {now : Int} (h : Sound crypto n s) (hsession : session ∈ s.1.sessions)
    (hu : s.1.users[session.userId]? = some u) (henabled : u.disabledAt = none)
    (hnow : now < session.expiresAt) :
    s.1.sessionUser session.tokenHash now = some ⟨session.userId, u.username⟩ := by
  have hfind : s.1.sessions.find? (fun x => x.tokenHash = session.tokenHash) = some session := by
    refine List.find?_eq_some_iff_append.2 ⟨by simp, ?_⟩
    obtain ⟨before, after, happend⟩ := List.append_of_mem hsession
    refine ⟨before, after, happend, fun y hy => ?_⟩
    have hunique := h.unique
    rw [happend, List.map_append, List.nodup_append] at hunique
    have hne := hunique.2.2 _ (List.mem_map_of_mem hy) session.tokenHash (by simp)
    simpa using hne
  simp [Accounts.sessionUser, hfind, hu, henabled, hnow]

/-- The session a login opens is honoured, for that account, in every state of every run from there
on that does not end it. -/
theorem session_lasts {z : Pool.Config (watched crypto)}
    {threads : Nat → Option (Prog AccountCall AccountError (Option Task))} {n i : Nat}
    {s s' : Accounts × Notes} {user : CurrentUser} {tokenHash : List UInt8} {expiresAt now : Int}
    {k : Except AccountError Unit → Prog AccountCall AccountError (Option Task)}
    (hx : (watched crypto).Reachable ⟨threads, n, s⟩)
    (hthread : threads i = some (.call (.createSession user tokenHash expiresAt) k))
    (hopen : (watched crypto).step i (.createSession user tokenHash expiresAt) s (.ok ()) s')
    (hz : (watched crypto).Leads (Undisturbed ⟨tokenHash, user.id, s.1.clock, expiresAt⟩)
      ⟨Function.update threads i (some (k (.ok ()))), n, s'⟩ z)
    (henabled : ∀ u, s'.1.users[user.id]? = some u → u.disabledAt = none) (hnow : now < expiresAt) :
    ∃ u, z.state.1.users[user.id]? = some u ∧
      z.state.1.sessionUser tokenHash now = some ⟨user.id, u.username⟩ := by
  obtain ⟨hsound, a, ⟨r, ha, hr, -⟩, hmemory⟩ := (sound_invariant crypto).allowed hx hthread
  obtain ⟨u, hu, -⟩ := (hsound.readings i r (hmemory.symm.trans ha)).account
  obtain ⟨t, ht, hs'⟩ := Option.map_eq_some_iff.1 hopen.1
  obtain rfl : t = s'.1 := congrArg Prod.snd hs'
  obtain ⟨husers, -, live, -, hsessions, -⟩ := Accounts.createSession_eq_some ht
  have hin : ⟨tokenHash, user.id, s.1.clock, expiresAt⟩ ∈ s'.1.sessions := by
    rw [hsessions]
    simp
  rw [hr, ← husers] at hu
  obtain ⟨hstays, u', hu', -, hstill⟩ := session_stays hin hu hz
  have hreach := hz.reachable (hx.step (.call hthread hopen))
  exact ⟨u', hu', (sound_reachable hreach).sessionUser hstays hu' (hstill (henabled u hu)) hnow⟩

/-! Another account logs in twice, which clears its first session, and the server starts over. -/

theorem lasting_call {session : Session} {x : Pool.Config (watched plain)}
    {threads : Nat → Option (Prog AccountCall AccountError (Option Task))} {n i : Nat}
    {s s' : Accounts} {notes : Notes} {β : Type} {c : AccountCall β} {b : β}
    {k : β → Prog AccountCall AccountError (Option Task)}
    (h : (watched plain).Leads (Undisturbed session) x
      ⟨update threads i (some (.call c k)), n, s, notes⟩) (hstep : c.Step plain s s' b)
    (hkeep : Undisturbed session (s, notes) (s', c.seen i s b notes)) :
    (watched plain).Leads (Undisturbed session) x
      ⟨update threads i (some (k b)), n, s', c.seen i s b notes⟩ :=
  h.call ⟨hstep, rfl⟩ hkeep

theorem lasting_start {session : Session} {x : Pool.Config (watched plain)}
    {threads : Nat → Option (Prog AccountCall AccountError (Option Task))} {n : Nat}
    {s : Accounts} {notes : Notes} (task : Task)
    (h : (watched plain).Leads (Undisturbed session) x ⟨threads, n, s, notes⟩)
    (hlive : s.clock < session.expiresAt)
    (henabled : ∀ u, s.users[session.userId]? = some u → u.disabledAt = none) :
    (watched plain).Leads (Undisturbed session) x
      ⟨update threads n (some ((watched plain).body task)), n + 1, s, notes⟩ :=
  h.step (.start trivial) ⟨hlive, rfl, rfl, henabled⟩

theorem lasting_clock {session : Session} {x : Pool.Config (watched plain)}
    {threads : Nat → Option (Prog AccountCall AccountError (Option Task))} {n : Nat}
    {s : Accounts} {notes : Notes} (clock : Int)
    (h : (watched plain).Leads (Undisturbed session) x ⟨threads, n, s, notes⟩)
    (hlive : s.clock < session.expiresAt)
    (henabled : ∀ u, s.users[session.userId]? = some u → u.disabledAt = none) :
    (watched plain).Leads (Undisturbed session) x
      ⟨threads, n, { s with clock := clock }, notes⟩ :=
  h.step (.env ⟨⟨clock, rfl⟩, rfl⟩) ⟨hlive, rfl, rfl, henabled⟩

theorem lasting_login {session : Session} {x : Pool.Config (watched plain)}
    {threads : Nat → Option (Prog AccountCall AccountError (Option Task))} {n : Nat}
    {s s' : Accounts} {notes : Notes} {user : CurrentUser} {username hash : Text}
    (password : Text) (bytes : List UInt8)
    (h : (watched plain).Leads (Undisturbed session) x ⟨threads, n, s, notes⟩)
    (hfound : s.loginCandidate username = some (user, hash))
    (hmatches : plain.verifyPassword password hash = true) (hbytes : bytes.length = 32)
    (hopen : s.createSession user (plain.tokenHash (hex bytes)) (s.clock + sessionTtlMs) = some s')
    (hlive : s.clock < session.expiresAt)
    (henabled : ∀ u, s.users[session.userId]? = some u → u.disabledAt = none) :
    ∃ threads' notes', (watched plain).Leads (Undisturbed session) x
      ⟨threads', n + 1, s', notes'⟩ := by
  obtain ⟨husers, -⟩ := Accounts.createSession_eq_some hopen
  have h := lasting_start
    (.login (some "application/json".toList) ⟨some username, some password⟩) h hlive henabled
  have h := lasting_call (c := .loginCandidate _) (b := .ok (some (user, hash))) h
    (by rw [← hfound]; rfl) ⟨hlive, rfl, rfl, henabled⟩
  have h := lasting_call (c := .verifyPassword _ _) (b := .ok true) h (by rw [← hmatches]; rfl)
    ⟨hlive, rfl, rfl, henabled⟩
  have h := lasting_call (c := .newSessionToken) (b := .ok (hex bytes)) h
    ⟨rfl, fun _ h => by cases h; exact ⟨bytes, hbytes, rfl⟩⟩ ⟨hlive, rfl, rfl, henabled⟩
  have h := lasting_call (c := .now) (b := s.clock) h ⟨rfl, rfl⟩ ⟨hlive, rfl, rfl, henabled⟩
  have h := lasting_call (c := .createSession _ _ _) (b := .ok ()) h
    (show ((_ : Option Accounts).map _) = _ by rw [hopen]; rfl)
    ⟨hlive, rfl, rfl, fun u => by rw [show (s', _).1.users = s.users from husers]; exact henabled u⟩
  exact ⟨_, _, h⟩

def bob : CurrentUser := { id := 1, username := ['b', 'o', 'b'] }
def bobsToken (b : UInt8) : List UInt8 := List.replicate 32 b

def annsSession : Session := ⟨plain.tokenHash aToken, ann.id, 0, sessionTtlMs⟩

/-- Bob's session opened at `at_`. -/
def bobsSession (b : UInt8) (at_ : Int) : Session :=
  ⟨plain.tokenHash (hex (bobsToken b)), bob.id, at_, at_ + sessionTtlMs⟩

/-- The two accounts, at `clock`. -/
def annAndBob (sessions : List Session) (clock : Int) : Accounts where
  users := added.users ++
    [{ username := bob.username, passwordHash := 'h' :: newPassword, createdAt := -1000
       disabledAt := none }]
  sessions := sessions
  clock := clock

/-- After a login its session is honoured, whoever else logs in and though the server starts over. -/
theorem login_lasts : ∃ u : User, u.username = ann.username ∧
    ∃ x, (watched plain).Reachable x ∧ x.state.1.users[ann.id]? = some u ∧
      x.state.1.sessions = [annsSession, bobsSession 9 (sessionTtlMs - 500)] ∧
      (∀ i, x.threads i = none) ∧
      x.state.1.sessionUser (plain.tokenHash aToken) (sessionTtlMs - 500) =
        some ⟨ann.id, u.username⟩ := by
  obtain ⟨threads, notes, k, h, -⟩ := login_awaits
  let opened := { added with sessions := [annsSession] }
  let call : AccountCall _ := .createSession ann (plain.tokenHash aToken) sessionTtlMs
  have hopen : (watched plain).step 1 call (added, notes) (.ok ())
    (opened, call.seen 1 added (.ok ()) notes) := ⟨rfl, rfl⟩
  have henabled : ∀ {s : Accounts}, s.users = added.users ∨ s.users = (annAndBob [] 0).users →
      ∀ u, s.users[annsSession.userId]? = some u → u.disabledAt = none := by
    rintro s (hs | hs) u hu <;> rw [hs] at hu <;> cases hu <;> rfl
  have hearly : (-1000 : Int) < annsSession.expiresAt := by decide
  have hlate : sessionTtlMs - 500 < annsSession.expiresAt := by decide
  have hfound : ∀ sessions clock, (annAndBob sessions clock).loginCandidate bob.username =
      some (bob, 'h' :: newPassword) := fun _ _ => rfl
  have hfirst : (annAndBob [annsSession] (-1000)).createSession bob
      (plain.tokenHash (hex (bobsToken 8))) (-1000 + sessionTtlMs) =
        some (annAndBob [annsSession, bobsSession 8 (-1000)] (-1000)) := rfl
  -- the second login clears Bob's first session
  have hsecond : (annAndBob [annsSession, bobsSession 8 (-1000)]
      (sessionTtlMs - 500)).createSession bob (plain.tokenHash (hex (bobsToken 9)))
        (sessionTtlMs - 500 + sessionTtlMs) =
      some (annAndBob [annsSession, bobsSession 9 (sessionTtlMs - 500)] (sessionTtlMs - 500)) := rfl
  have hrun : (watched plain).Leads (Undisturbed annsSession)
    ⟨update (update threads 1 (some (.call call k))) 1 (some (k (.ok ()))), 2, opened,
      call.seen 1 added (.ok ()) notes⟩ _ := .refl
  have hrun := lasting_clock (-1000) hrun (by decide) (henabled (Or.inl rfl))
  have hrun := lasting_start (.addUser bob.username newPassword) hrun hearly
    (henabled (Or.inl rfl))
  have hrun := lasting_call (c := .hashPassword _) (b := .ok ('h' :: newPassword)) hrun
    ⟨rfl, fun _ h => by cases h; rfl⟩ ⟨hearly, rfl, rfl, henabled (Or.inl rfl)⟩
  have hcreate : (AccountCall.createUser bob.username ('h' :: newPassword)).Step plain
    { opened with clock := -1000 } (annAndBob [annsSession] (-1000)) (.ok 1) := rfl
  have hrun := lasting_call hrun hcreate ⟨hearly, rfl, rfl, henabled (Or.inr rfl)⟩
  obtain ⟨threads', notes', hrun⟩ := lasting_login newPassword (bobsToken 8) hrun
    (hfound [annsSession] (-1000)) rfl rfl hfirst hearly (henabled (Or.inr rfl))
  have hrun := lasting_clock (sessionTtlMs - 500) hrun hearly (henabled (Or.inr rfl))
  obtain ⟨threads'', notes'', hrun⟩ := lasting_login newPassword (bobsToken 9) hrun
    (hfound [annsSession, bobsSession 8 (-1000)] (sessionTtlMs - 500)) rfl rfl hsecond hlate
    (henabled (Or.inr rfl))
  have hrun := hrun.step (.restart ⟨rfl, rfl⟩) ⟨hlate, rfl, rfl, henabled (Or.inr rfl)⟩
  obtain ⟨u, hu, hhonoured⟩ := session_lasts h (Function.update_self 1 _ _) hopen hrun
    (henabled (Or.inl rfl)) hlate
  refine ⟨u, by cases hu; rfl, _, hrun.reachable (h.step (.call (Function.update_self 1 _ _) hopen)),
    hu, rfl, fun _ => rfl, hhonoured⟩

end

end Hunter.Auth
