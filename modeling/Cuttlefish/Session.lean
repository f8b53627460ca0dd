import Cuttlefish.Access
import Mathlib.Logic.Function.Basic

/-!
# Cuttlefish.Session

Sign-in and sessions of `fs_api`: the `sessions` table, the requests that run
concurrently over it, and the identity provider they ask.

A request is a process.  Each of its steps is one database statement or one
call to the provider, so a schedule is a list of actions, and a statement
that fails has no effect.  `Local.next` is the handler — `loadSession`,
`recheckSession` and `resolveAccess` — as far as one request and the row of
its own session are concerned; `World.step` is the whole server.

The table is keyed by the hash of a random cookie: a map, in which a login
takes a key that was never used.  What the provider knows of a session is
kept in an `Account`, which no step of the server reads.

Times are integers, with one clock for the server and the database.
-/

namespace Cuttlefish

/-! ## configuration -/

/-- The defaults and checks of the `auth` section at startup. -/
def AuthConfig.load (raw : AuthConfig) : Option AuthConfig :=
  match raw.mode with
  | .localAccount =>
      if raw.localUsername = [] ∨ raw.localPassword = [] ∨ raw.localUsername = "admin".toList ∨
          raw.localPassword = "changeme".toList then none
      else some raw
  | .oidc =>
      if raw.oidc.adminGroups = [] then none
      else some
        { raw with
          oidc :=
            { raw.oidc with
              groupsClaim :=
                if raw.oidc.groupsClaim = [] then "groups".toList else raw.oidc.groupsClaim
              recheckInterval :=
                if raw.oidc.recheckInterval ≤ 0 then 5 * 60 else raw.oidc.recheckInterval } }

theorem AuthConfig.recheckInterval_pos {raw config : AuthConfig} (h : raw.load = some config)
    (hmode : config.mode = .oidc) : 0 < config.oidc.recheckInterval := by
  unfold AuthConfig.load at h
  cases hraw : raw.mode with
  | localAccount =>
      rw [hraw] at h
      dsimp only at h
      split_ifs at h
      cases h
      rw [hraw] at hmode
      cases hmode
  | oidc =>
      rw [hraw] at h
      dsimp only at h
      split_ifs at h
      all_goals
        cases h
        dsimp only
        omega

/-! ## claims -/

/-- A claim, as far as anything depends on it.  In an array, `none` stands
for an entry that is no string. -/
inductive Claim where
  | text (t : Text)
  | array (items : List (Option Text))
  | other
  deriving DecidableEq, Repr

/-- The claims of a token, by name. -/
abbrev Claims := List (Text × Claim)

/-- A claim that is a string, else the empty string. -/
def Claims.text (c : Claims) (name : Text) : Text :=
  match c.lookup name with
  | some (.text t) => t
  | _ => []

/-- Who a token is about. -/
structure Identity where
  user : Text
  email : Text
  groups : List Text
  deriving DecidableEq, Repr

/-- The session username (the configured claim, else the email address, else
`sub`) and the groups claim, an array or a single string. -/
def identityFromClaims (config : OIDCConfig) (c : Claims) : Identity :=
  let email := c.text "email".toList
  let user := if config.usernameClaim ≠ [] then c.text config.usernameClaim else []
  let user := if user = [] then email else user
  let user := if user = [] then c.text "sub".toList else user
  let groups :=
    match c.lookup config.groupsClaim with
    | some (.array items) => items.filterMap id
    | some (.text t) => [t]
    | _ => []
  ⟨user, email, groups⟩

/-- What follows the last `@`; empty without one. -/
def emailDomain (email : Text) : Text :=
  if '@' ∈ email then email.rtakeWhile (· ≠ '@') else []

/-- The optional allowlists: users first, domains only without them. -/
def identityAllowed (config : OIDCConfig) (user email : Text) : Bool :=
  if config.allowedUsers ≠ [] then user ∈ config.allowedUsers
  else if config.allowedDomains ≠ [] then
    emailDomain email ≠ [] ∧ emailDomain email ∈ config.allowedDomains
  else true

/-! ## sessions -/

/-- The SHA-256 of a cookie. -/
abbrev SessionId := Bytes

/-- A row of `sessions`. -/
structure Session where
  username : Text
  groups : List Text
  refreshToken : Option Text
  checkedAt : Int
  expiresAt : Int
  deriving DecidableEq, Repr

/-- How a session was signed in. -/
inductive Origin where
  | localLogin
  | oidcLogin
  deriving DecidableEq, Repr

/-- What happened to a session outside its row: the groups the provider has
verified, the refresh tokens it has issued and has been presented, each
newest first, and whether a re-check concluded that the session must go. -/
structure Account where
  origin : Origin
  username : Text
  issuedAt : Int
  verified : List (List Text)
  tokens : List Text
  presented : List Text := []
  revoked : Bool := false
  deriving DecidableEq, Repr

def Account.verify (a : Account) (groups : List Text) : Account :=
  { a with verified := groups :: a.verified }

def Account.present (a : Account) (token : Text) : Account :=
  { a with presented := token :: a.presented }

/-- A response without a refresh token leaves the old one in use. -/
def Account.issue (a : Account) (token : Text) : Account :=
  { a with tokens := if token = [] then a.tokens else token :: a.tokens }

def Account.conclude (a : Account) : Account := { a with revoked := true }

/-! ## requests -/

/-- Where a request stands. -/
inductive Stage where
  | started
  /-- The row was read, and the claim comes next. -/
  | selected (user : Text) (groups : List Text)
  /-- The re-check is claimed, and the refresh comes next. -/
  | claimed (user : Text) (token : Text)
  /-- The provider accepted, and the claims come next. -/
  | refreshed (user : Text) (token newToken : Text) (idToken : Bool)
  /-- The groups are known, and the final UPDATE comes next. -/
  | recording (user : Text) (groups : List Text) (token : Text)
  /-- The session must go, and the DELETE comes next. -/
  | revoking
  | unauthorized
  /-- The session is good for a user with these groups. -/
  | authorized (user : Text) (groups : List Text)
  /-- The request has its role. -/
  | resolved (groups : List Text) (role : Role)
  /-- The grants could not be read. -/
  | failed (groups : List Text)
  deriving DecidableEq, Repr

/-- A request, with two marks of how far its session was when it started. -/
structure Request where
  id : SessionId
  startedAt : Int
  cancelled : Bool := false
  stage : Stage := .started
  verifiedAtStart : Nat := 0
  revokedAtStart : Bool := false
  deriving DecidableEq, Repr

/-- A re-check that was claimed and has not run its final statement. -/
def Stage.InFlight : Stage → Prop
  | .claimed .. | .refreshed .. | .recording .. | .revoking => True
  | _ => False

/-- The groups the session check came back with. -/
def Stage.groups? : Stage → Option (List Text)
  | .authorized _ groups | .resolved groups _ | .failed groups => some groups
  | _ => none

instance : DecidablePred Stage.InFlight := fun s => by
  cases s <;> dsimp only [Stage.InFlight] <;> infer_instance

/-- What the refresh call meets. -/
inductive RefreshReply where
  | unreachable
  | refused
  /-- Accepted, with a refresh token if the provider rotates them. -/
  | issued (token : Text) (idToken : Bool)
  deriving DecidableEq, Repr

/-- A step of one request; `db` says whether its statement succeeds. -/
inductive RequestAction where
  | select (db : Bool)
  | claim (db : Bool)
  | refresh (reply : RefreshReply)
  | tokenClaims (reply : Option Claims)
  | record (db : Bool)
  | revoke (db : Bool)
  | resolve (db : Bool)
  | cancel
  deriving DecidableEq, Repr

/-- What a step of a request reads and writes: the row of its session, what
the provider knows of it, and the request. -/
structure Local where
  row : Option Session
  account : Option Account
  request : Request
  deriving DecidableEq, Repr

def Local.goto (l : Local) (stage : Stage) : Local :=
  { l with request := { l.request with stage := stage } }

/-- `SELECT … WHERE id_hash = $1 AND expires_at > now()`.  Without a provider
that is all there is to it. -/
def loadSession (config : AuthConfig) (now : Int) (db : Bool) (row : Option Session) : Stage :=
  if ¬ db then .unauthorized
  else
    match row.filter fun s => now < s.expiresAt with
    | none => .unauthorized
    | some s =>
        if config.mode ≠ .oidc then .authorized s.username s.groups
        else .selected s.username s.groups

/-- `UPDATE … SET checked_at = now() WHERE … AND checked_at < now() - … RETURNING`.
Whoever gets no row carries on with the stored groups, and so does whoever
gets a row without a refresh token. -/
def Local.claim (l : Local) (config : AuthConfig) (now : Int) (db : Bool) (user : Text)
    (groups : List Text) : Local :=
  if ¬ db then l.goto .unauthorized
  else
    match l.row.filter fun s => s.checkedAt < now - config.oidc.recheckInterval with
    | none => l.goto (.authorized user groups)
    | some s =>
        let l : Local := { l with row := some { s with checkedAt := now } }
        match s.refreshToken with
        | none => l.goto (.authorized user groups)
        | some token => l.goto (.claimed user token)

/-- The re-check concludes that the session must go. -/
def Local.conclude (l : Local) : Local :=
  let l : Local := { l with account := l.account.map Account.conclude }
  l.goto .revoking

/-- What the provider makes of a refresh call that presents `token`. -/
def RefreshReply.book (reply : RefreshReply) (token : Text) (a : Account) : Account :=
  match reply with
  | .unreachable => a
  | .refused => a.present token
  | .issued newToken _ => (a.present token).issue newToken

def Local.book (l : Local) (reply : RefreshReply) (token : Text) : Local :=
  { l with account := l.account.map (reply.book token) }

/-- The refresh call.  It fails when its context is cancelled, whatever the
provider made of it; any failure revokes. -/
def Local.refresh (l : Local) (reply : RefreshReply) (user token : Text) : Local :=
  let l := l.book reply token
  match reply with
  | .issued newToken idToken =>
      if l.request.cancelled then l.conclude
      else l.goto (.refreshed user token newToken idToken)
  | _ => l.conclude

/-- The groups are known. -/
def Local.verified (l : Local) (user : Text) (groups : List Text) (token : Text) : Local :=
  let l : Local := { l with account := l.account.map (Account.verify · groups) }
  l.goto (.recording user groups token)

/-- The claims of the response.  Without an ID token they come from another
call, which a cancelled context fails. -/
def Local.verify (l : Local) (config : OIDCConfig) (reply : Option Claims)
    (user token newToken : Text) (idToken : Bool) : Local :=
  match if idToken = false ∧ l.request.cancelled then none else reply with
  | none => l.conclude
  | some claims =>
      let new := identityFromClaims config claims
      if new.user ≠ user ∨ ¬ identityAllowed config new.user new.email then l.conclude
      else l.verified user new.groups (if newToken = [] then token else newToken)

/-- `UPDATE sessions SET groups = …, refresh_token = …`; an error is logged. -/
def Local.record (l : Local) (db : Bool) (user : Text) (groups : List Text) (token : Text) :
    Local :=
  let row := l.row.map fun s => { s with groups := groups, refreshToken := some token }
  let l : Local := { l with row := if db then row else l.row }
  l.goto (.authorized user groups)

/-- `DELETE FROM sessions`; an error is logged. -/
def Local.revoke (l : Local) (db : Bool) : Local :=
  let l : Local := { l with row := if db then none else l.row }
  l.goto .unauthorized

/-- The role; only a restricted user's grants are read. -/
def resolveRole (config : AuthConfig) (db : Bool) (groups : List Text) : Stage :=
  if roleFor config groups = .restricted ∧ ¬ db then .failed groups
  else .resolved groups (roleFor config groups)

/-- One step of a request. -/
def Local.next (config : AuthConfig) (now : Int) (l : Local) : RequestAction → Option Local
  | .select db =>
      match l.request.stage with
      | .started => some (l.goto (loadSession config now db l.row))
      | _ => none
  | .claim db =>
      match l.request.stage with
      | .selected user groups => some (l.claim config now db user groups)
      | _ => none
  | .refresh reply =>
      match l.request.stage with
      | .claimed user token => some (l.refresh reply user token)
      | _ => none
  | .tokenClaims reply =>
      match l.request.stage with
      | .refreshed user token newToken idToken =>
          some (l.verify config.oidc reply user token newToken idToken)
      | _ => none
  | .record db =>
      match l.request.stage with
      | .recording user groups token => some (l.record db user groups token)
      | _ => none
  | .revoke db =>
      match l.request.stage with
      | .revoking => some (l.revoke db)
      | _ => none
  | .resolve db =>
      match l.request.stage with
      | .authorized _ groups => some (l.goto (resolveRole config db groups))
      | _ => none
  | .cancel => some { l with request := { l.request with cancelled := true } }

/-! ## signing in -/

/-- What a login brings: the local account's password, or the code the
provider exchanges for claims and a refresh token. -/
inductive Credential where
  | password (user password : Text)
  | code (claims : Claims) (refreshToken : Text)
  deriving DecidableEq, Repr

/-- A login that was accepted. -/
structure Login where
  origin : Origin
  user : Text
  groups : List Text
  refreshToken : Text
  deriving DecidableEq, Repr

/-- `/auth/login` exists in local mode, `/auth/callback` with a provider. -/
def authenticate (config : AuthConfig) : Credential → Option Login
  | .password user password =>
      if config.mode = .localAccount ∧ user = config.localUsername ∧
          password = config.localPassword then some ⟨.localLogin, user, [], []⟩
      else none
  | .code claims refreshToken =>
      let new := identityFromClaims config.oidc claims
      if config.mode = .oidc ∧ identityAllowed config.oidc new.user new.email then
        some ⟨.oidcLogin, new.user, new.groups, refreshToken⟩
      else none

/-- The two ways in. -/
theorem authenticate_cases {config : AuthConfig} {credential : Credential} {login : Login}
    (h : authenticate config credential = some login) :
    (config.mode = .localAccount ∧ ∃ user, login = ⟨.localLogin, user, [], []⟩) ∨
      (config.mode = .oidc ∧ ∃ claims token, credential = .code claims token ∧
        login = ⟨.oidcLogin, (identityFromClaims config.oidc claims).user,
          (identityFromClaims config.oidc claims).groups, token⟩) := by
  cases credential with
  | password user password =>
      simp only [authenticate] at h
      split_ifs at h with hok
      cases h
      exact Or.inl ⟨hok.1, user, rfl⟩
  | code claims token =>
      simp only [authenticate] at h
      split_ifs at h with hok
      cases h
      exact Or.inr ⟨hok.1, claims, token, rfl, rfl⟩

def sessionLifetime : Int := 24 * 60 * 60

/-- The row `issueSession` inserts.  A session the provider cannot be asked
about again lasts one interval. -/
def newSession (config : AuthConfig) (now : Int) (login : Login) : Session where
  username := login.user
  groups := login.groups
  refreshToken := if login.refreshToken = [] then none else some login.refreshToken
  checkedAt := now
  expiresAt :=
    if config.mode = .oidc ∧ login.refreshToken = [] then now + config.oidc.recheckInterval
    else now + sessionLifetime

def newAccount (now : Int) (login : Login) : Account where
  origin := login.origin
  username := login.user
  issuedAt := now
  verified := if login.origin = .oidcLogin then [login.groups] else []
  tokens := if login.refreshToken = [] then [] else [login.refreshToken]

/-! ## the server -/

structure World where
  config : AuthConfig
  now : Int
  sessions : SessionId → Option Session
  accounts : SessionId → Option Account
  requests : List Request

/-- A server on a new database. -/
def World.init (config : AuthConfig) : World := ⟨config, 0, fun _ => none, fun _ => none, []⟩

inductive Action where
  | tick (d : Nat)
  | start (id : SessionId)
  | request (pid : Nat) (act : RequestAction)
  | logout (id : SessionId) (db : Bool)
  /-- `cleanup` and `insert` say whether the two statements succeed. -/
  | login (id : SessionId) (credential : Credential) (cleanup insert : Bool)
  /-- A stop, which ends every request, and a start with a new configuration. -/
  | restart (raw : AuthConfig)
  deriving DecidableEq, Repr

/-- A new request with a session's cookie. -/
def newRequest (now : Int) (id : SessionId) (account : Option Account) : Request where
  id := id
  startedAt := now
  verifiedAtStart := account.elim 0 fun a => a.verified.length
  revokedAtStart := account.any fun a => a.revoked

/-- What a step of a request wrote. -/
def World.put (w : World) (pid : Nat) (id : SessionId) (l : Local) : World :=
  { w with
    sessions := Function.update w.sessions id l.row
    accounts := Function.update w.accounts id l.account
    requests := w.requests.set pid l.request }

/-- `DELETE FROM sessions WHERE expires_at < now()`. -/
def World.cleanup (w : World) (db : Bool) : World :=
  if db then { w with sessions := fun id => (w.sessions id).filter fun s => ¬ s.expiresAt < w.now }
  else w

/-- `issueSession`, for a cookie never drawn before. -/
def World.issueSession (w : World) (id : SessionId) (login : Login) (cleanup insert : Bool) :
    World :=
  let w := w.cleanup cleanup
  if insert then
    { w with
      sessions := Function.update w.sessions id (some (newSession w.config w.now login))
      accounts := Function.update w.accounts id (some (newAccount w.now login)) }
  else w

def World.step (w : World) : Action → Option World
  | .tick d => some { w with now := w.now + d }
  | .start id => some { w with requests := w.requests ++ [newRequest w.now id (w.accounts id)] }
  | .request pid act =>
      match w.requests[pid]? with
      | none => none
      | some r =>
          (Local.next w.config w.now ⟨w.sessions r.id, w.accounts r.id, r⟩ act).map
            (w.put pid r.id)
  | .logout id db =>
      some (if db then { w with sessions := Function.update w.sessions id none } else w)
  | .login id credential cleanup insert =>
      match authenticate w.config credential, w.accounts id with
      | some login, none => some (w.issueSession id login cleanup insert)
      | _, _ => none
  | .restart raw => raw.load.map fun config => { w with config := config, requests := [] }

end Cuttlefish
