import Cuttlefish.Run
import Cuttlefish.Search
import Cuttlefish.Session

/-!
# Cuttlefish.SignIn

Signing in through the identity provider, as a protocol between browsers,
`fs_api` and the provider, with an outsider who sends requests of its own and
makes browsers open links.

`fs_api` keeps nothing between `handleOIDCStart` and `handleOIDCCallback`: what
ties the two together is the `oidc_state` cookie.  A request carries the
cookies its browser held when it was sent, a response sets cookies when it
arrives, and in between any number of other requests are on their way.

The outsider may send anything but what it cannot know (`Unguessed`).
-/

namespace Cuttlefish.SignIn

/-! ## cookies -/

/-- A `Set-Cookie` header; path and `HttpOnly` never vary. -/
structure SetCookie where
  value : Text
  maxAge : Int
  secure : Bool
  deriving DecidableEq, Repr

/-- A cookie in a browser, and when it expires, if it does. -/
structure Held where
  value : Text
  expires : Option Int
  secure : Bool
  deriving DecidableEq, Repr

structure Jar where
  oidcState : Option Held := none
  session : Option Held := none
  deriving DecidableEq, Repr

/-- What a header does to the cookie of its name.  A browser takes no secure
cookie over a plain connection; a `MaxAge` of 0 is not sent at all. -/
def SetCookie.store (c : SetCookie) (now : Int) (https : Bool) (old : Option Held) : Option Held :=
  if c.secure = true ∧ https = false then old
  else if c.maxAge < 0 then none
  else some ⟨c.value, if c.maxAge = 0 then none else some (now + c.maxAge), c.secure⟩

/-- The cookie a request carries; a secure one stays off a plain connection. -/
def sentCookie (now : Int) (https : Bool) (held : Option Held) : Option Text :=
  (held.filter fun c => (c.expires.all fun t => now < t) && (!c.secure || https)).map (·.value)

/-! ## the server -/

/-- The configuration, with a provider. -/
structure Site where
  config : AuthConfig
  allowInsecureHttp : Bool
  lower : Text → Text
  oidc : config.mode = .oidc

/-- How a request came in; `https` is what the browser sees of it. -/
structure Connection where
  tls : Bool
  forwardedProto : Text
  https : Bool
  deriving DecidableEq, Repr

/-- The scheme the browser sees, as far as the server can tell. -/
def Site.effectiveScheme (site : Site) (c : Connection) : Text :=
  if c.tls then "https".toList
  else if site.allowInsecureHttp = true ∧ c.forwardedProto ≠ [] then
    site.lower (trimSpace (c.forwardedProto.takeWhile (· ≠ ',')))
  else "http".toList

def Site.secure (site : Site) (c : Connection) : Bool := site.effectiveScheme c = "https".toList

inductive Location where
  /-- The provider's authorization page for this state. -/
  | provider (state : Text)
  | home
  deriving DecidableEq, Repr

structure Response where
  status : Nat
  error : Option Text := none
  location : Option Location := none
  stateCookie : Option SetCookie := none
  sessionCookie : Option SetCookie := none
  deriving DecidableEq, Repr

def respondError (status : Nat) (message : Text) : Response :=
  { status := status, error := some message }

/-- `GET /auth/oidc/start`, with what `randomHex(16)` returns. -/
def handleOIDCStart (site : Site) (c : Connection) : Option Text → Response
  | none => respondError 500 "failed to generate state".toList
  | some state =>
      { status := 302
        location := some (.provider state)
        stateCookie := some ⟨state, 300, site.secure c⟩ }

/-- The header that deletes the state cookie. -/
def clearState : SetCookie := ⟨[], -1, false⟩

def clearSession : SetCookie := ⟨[], -1, false⟩

/-- How the exchange of a code and the verification of the ID token end. -/
inductive Exchange where
  | failed
  | noIdToken
  | unverified
  | badClaims
  | verified (refreshToken : Text)
  deriving DecidableEq, Repr

/-- What the callback answers when it gets no claims. -/
def Exchange.refusal : Exchange → Option Response
  | .failed => some (respondError 500 "token exchange failed".toList)
  | .noIdToken => some (respondError 500 "no id_token in response".toList)
  | .unverified => some (respondError 401 "id_token verification failed".toList)
  | .badClaims => some (respondError 500 "invalid id_token claims".toList)
  | .verified _ => none

/-- What the callback answers once it has checked the state. -/
def Response.clearingState (r : Response) : Response := { r with stateCookie := some clearState }

/-- `int(time.Until(expires).Seconds())`, `elapsed` nanoseconds after `now`:
86399 for a day, once the two statements have taken any time at all. -/
def maxAge (now : Int) (elapsed : Nat) (expires : Int) : Int :=
  ((expires - now) * 1000000000 - elapsed).tdiv 1000000000

/-- The session cookie, made once the row is there. -/
def sessionCookie (site : Site) (c : Connection) (now : Int) (elapsed : Nat) (token : Text)
    (s : Session) : SetCookie :=
  ⟨token, maxAge now elapsed s.expiresAt, site.secure c⟩

/-- What `issueSession` leads to, in the end. -/
def signedIn (site : Site) (c : Connection) (now : Int) (elapsed : Nat) (token : Text)
    (s : Session) : Response :=
  { status := 302
    location := some .home
    sessionCookie := some (sessionCookie site c now elapsed token s) }

def sessionError : Response := respondError 500 "session error".toList

/-- `POST /auth/logout`. -/
def handleLogout : Response := { status := 200, sessionCookie := some clearSession }

/-! ## the three parties -/

inductive Client where
  | browser (b : Nat)
  | outsider
  deriving DecidableEq, Repr

inductive Endpoint where
  | start
  | callback (state code : Text)
  | logout
  deriving DecidableEq, Repr

inductive Stage where
  | arrived
  /-- The code is exchanged, and the session comes next. -/
  | verified (claims : Claims) (refreshToken : Text)
  | answered (r : Response)
  | closed
  deriving DecidableEq, Repr

/-- A request, with the cookies it was sent with. -/
structure Request where
  client : Client
  endpoint : Endpoint
  connection : Connection
  stateCookie : Option Text
  sessionCookie : Option Text
  stage : Stage := .arrived
  deriving DecidableEq, Repr

/-- Somebody has signed in at the provider, on the page for `state`. -/
structure Authorization where
  client : Client
  state : Text
  code : Text
  claims : Claims
  deriving DecidableEq, Repr

/-- The parties, and what has been said so far: the states the provider has
turned somebody away for, the states and session tokens drawn and for whom, the
states of links that browsers were made to open, and the codes the outsider has
tried and the tokens it was given. -/
structure World where
  now : Int := 0
  jars : Nat → Jar := fun _ => {}
  requests : List Request := []
  /-- `sessions`, by the token whose hash is the key. -/
  sessions : Text → Option Session := fun _ => none
  granted : List Authorization := []
  refused : List (Client × Text) := []
  redeemed : List Text := []
  drawn : List (Client × Text) := []
  tokens : List (Client × Text) := []
  mentioned : List (Nat × Text) := []
  tried : List Text := []
  learned : List Text := []

inductive Action where
  | tick (n : Nat)
  /-- A browser opens a URL: a link, a redirect it follows, or one once more. -/
  | visit (b : Nat) (endpoint : Endpoint) (c : Connection)
  /-- The outsider sends a request with whatever cookies. -/
  | forge (endpoint : Endpoint) (c : Connection) (stateCookie sessionCookie : Option Text)
  /-- The provider signs somebody in, and redirects with a code. -/
  | authorize (a : Authorization)
  /-- The provider signs nobody in, and redirects with an error and no code. -/
  | refuse (client : Client) (state : Text)
  | start (i : Nat) (state : Option Text)
  | callback (i : Nat) (reply : Exchange)
  /-- `sweeps` and `inserted` say whether the two statements succeed, and
  `elapsed` how many nanoseconds they take. -/
  | finish (i : Nat) (token : Option Text) (sweeps inserted : Bool) (elapsed : Nat)
  | logout (i : Nat) (deleted : Bool)
  | deliver (i : Nat)
  /-- What a re-check makes of a row: groups and refresh token, or nothing. -/
  | recheck (token : Text) (groups : List Text) (refreshToken : Option Text)
  | revoke (token : Text)
  deriving DecidableEq, Repr

/-- The provider redirected this browser with the state and the code, or with
the state and an error; the callback reads no error, and no code as `""`. -/
def World.Followed (w : World) (b : Nat) (state code : Text) : Prop :=
  (∃ a ∈ w.granted, a.client = .browser b ∧ a.state = state ∧ a.code = code) ∨
    (code = [] ∧ (.browser b, state) ∈ w.refused)

instance (w : World) (b : Nat) (state code : Text) : Decidable (w.Followed b state code) :=
  inferInstanceAs (Decidable (_ ∨ _))

def World.put (w : World) (i : Nat) (r : Request) (stage : Stage) : World :=
  { w with requests := w.requests.set i { r with stage := stage } }

/-- A link to the callback that no redirect accounts for. -/
def World.mention (w : World) (b : Nat) : Endpoint → List (Nat × Text)
  | .callback state code =>
      if w.Followed b state code then w.mentioned else (b, state) :: w.mentioned
  | _ => w.mentioned

def World.visit (w : World) (b : Nat) (endpoint : Endpoint) (c : Connection) : World :=
  { w with
    mentioned := w.mention b endpoint
    requests := w.requests ++ [{
      client := .browser b
      endpoint := endpoint
      connection := c
      stateCookie := sentCookie w.now c.https (w.jars b).oidcState
      sessionCookie := sentCookie w.now c.https (w.jars b).session }] }

def World.forge (w : World) (endpoint : Endpoint) (c : Connection)
    (stateCookie sessionCookie : Option Text) : World :=
  { w with
    tried :=
      match endpoint with
      | .callback _ code => code :: w.tried
      | _ => w.tried
    requests := w.requests ++ [⟨.outsider, endpoint, c, stateCookie, sessionCookie, .arrived⟩] }

/-- `handleOIDCStart`. -/
def World.start (site : Site) (w : World) (i : Nat) (r : Request) (state : Option Text) :
    Option World :=
  match r.endpoint, r.stage with
  | .start, .arrived =>
      some { w.put i r (.answered (handleOIDCStart site r.connection state)) with
        drawn := (state.map fun s => (r.client, s)).toList ++ w.drawn }
  | _, _ => none

/-- `handleOIDCCallback` up to the claims.  The provider redeems a code once. -/
def World.callback (w : World) (i : Nat) (r : Request) (reply : Exchange) : Option World :=
  match r.endpoint, r.stage with
  | .callback state code, .arrived =>
      if r.stateCookie ≠ some state then
        some (w.put i r (.answered (respondError 400 "invalid state".toList)))
      else
        match reply with
        | .verified refreshToken =>
            (w.granted.find? fun a => a.code = code ∧ code ∉ w.redeemed).map fun a =>
              { w.put i r (.verified a.claims refreshToken) with
                redeemed := code :: w.redeemed }
        | reply => reply.refusal.map fun resp => w.put i r (.answered resp.clearingState)
  | _, _ => none

/-- `DELETE FROM sessions WHERE expires_at < now()`. -/
def World.sweep (w : World) (sweeps : Bool) : Text → Option Session := fun token =>
  if sweeps then (w.sessions token).filter fun s => ¬ s.expiresAt < w.now else w.sessions token

/-- The rest of `handleOIDCCallback`, with `issueSession` and what
`randomHex(32)` returns there. -/
def World.finish (site : Site) (w : World) (i : Nat) (r : Request) (token : Option Text)
    (sweeps inserted : Bool) (elapsed : Nat) : Option World :=
  match r.stage with
  | .verified claims refreshToken =>
      match authenticate site.config (.code claims refreshToken), token with
      | none, _ =>
          let resp := respondError 403 "user not allowed".toList
          some (w.put i r (.answered resp.clearingState))
      | some _, none => some (w.put i r (.answered sessionError.clearingState))
      | some login, some token =>
          let s := newSession site.config w.now login
          let resp := if inserted then signedIn site r.connection w.now elapsed token s
            else sessionError
          some { w.put i r (.answered resp.clearingState) with
            sessions :=
              if inserted then Function.update (w.sweep sweeps) token (some s)
              else w.sweep sweeps
            tokens := (r.client, token) :: w.tokens }
  | _ => none

/-- `handleLogout`. -/
def World.logout (w : World) (i : Nat) (r : Request) (deleted : Bool) : Option World :=
  match r.endpoint, r.stage with
  | .logout, .arrived =>
      some { w.put i r (.answered handleLogout) with
        sessions :=
          match r.sessionCookie with
          | some token => if deleted then Function.update w.sessions token none else w.sessions
          | none => w.sessions }
  | _, _ => none

/-- The cookies of a response that has arrived. -/
def Jar.store (jar : Jar) (now : Int) (https : Bool) (r : Response) : Jar where
  oidcState := r.stateCookie.elim jar.oidcState fun c => c.store now https jar.oidcState
  session := r.sessionCookie.elim jar.session fun c => c.store now https jar.session

/-- The session token in a response; a header that deletes carries none. -/
def Response.tokens (r : Response) : List Text :=
  (r.sessionCookie.map (·.value)).toList.filter (· ≠ [])

/-- A response arrives. -/
def World.deliver (w : World) (i : Nat) (r : Request) : Option World :=
  match r.stage with
  | .answered resp =>
      let w := w.put i r .closed
      some (match r.client with
        | .browser b =>
            { w with
              jars := Function.update w.jars b
                ((w.jars b).store w.now r.connection.https resp) }
        | .outsider =>
            { w with learned := resp.tokens ++ w.learned })
  | _ => none

/-- One step. -/
def World.step (site : Site) (w : World) : Action → Option World
  | .tick n => some { w with now := w.now + n }
  | .visit b endpoint c => some (w.visit b endpoint c)
  | .forge endpoint c stateCookie sessionCookie =>
      some (w.forge endpoint c stateCookie sessionCookie)
  | .authorize a => some { w with granted := a :: w.granted }
  | .refuse client state => some { w with refused := (client, state) :: w.refused }
  | .start i state => (w.requests[i]?).bind fun r => w.start site i r state
  | .callback i reply => (w.requests[i]?).bind fun r => w.callback i r reply
  | .finish i token sweeps inserted elapsed =>
      (w.requests[i]?).bind fun r => w.finish site i r token sweeps inserted elapsed
  | .logout i deleted => (w.requests[i]?).bind fun r => w.logout i r deleted
  | .deliver i => (w.requests[i]?).bind fun r => w.deliver i r
  | .recheck token groups refreshToken =>
      some { w with
        sessions := Function.update w.sessions token ((w.sessions token).map fun s =>
          { s with groups := groups, refreshToken := refreshToken, checkedAt := w.now }) }
  | .revoke token => some { w with sessions := Function.update w.sessions token none }

/-- Nobody guesses what was drawn at random: a link that no redirect accounts
for does not carry a state drawn for the browser that opens it, the outsider
does not have a code issued to a browser, the provider issues a code once and
never an empty one, and what the server draws is new. -/
def Unguessed (w : World) : Action → Prop
  | .visit b (.callback state code) _ =>
      w.Followed b state code ∨ (.browser b, state) ∉ w.drawn
  | .forge (.callback _ code) _ _ _ => ∀ a ∈ w.granted, a.code = code → a.client = .outsider
  | .authorize a =>
      a.code ≠ [] ∧ (∀ a' ∈ w.granted, a'.code ≠ a.code) ∧ (a.client ≠ .outsider → a.code ∉ w.tried)
  | .start i (some state) =>
      ∀ r ∈ w.requests[i]?, ∀ m ∈ w.mentioned, r.client = .browser m.1 → m.2 ≠ state
  | .finish _ (some token) _ _ _ => ∀ t ∈ w.tokens, t.2 ≠ token
  | _ => True

instance (w : World) : (a : Action) → Decidable (Unguessed w a)
  | .visit _ (.callback _ _) _ => inferInstanceAs (Decidable (_ ∨ _))
  | .visit _ .start _ => .isTrue trivial
  | .visit _ .logout _ => .isTrue trivial
  | .forge (.callback _ _) _ _ _ => inferInstanceAs (Decidable (∀ a ∈ w.granted, _))
  | .forge .start _ _ _ => .isTrue trivial
  | .forge .logout _ _ _ => .isTrue trivial
  | .authorize _ => inferInstanceAs (Decidable (_ ∧ _))
  | .start i (some _) => inferInstanceAs (Decidable (∀ r ∈ w.requests[i]?, _))
  | .start _ none => .isTrue trivial
  | .finish _ (some _) _ _ _ => inferInstanceAs (Decidable (∀ t ∈ w.tokens, _))
  | .finish _ none _ _ _ => .isTrue trivial
  | .refuse _ _ => .isTrue trivial
  | .tick _ => .isTrue trivial
  | .callback _ _ => .isTrue trivial
  | .logout _ _ => .isTrue trivial
  | .deliver _ => .isTrue trivial
  | .recheck _ _ _ => .isTrue trivial
  | .revoke _ => .isTrue trivial

end Cuttlefish.SignIn
