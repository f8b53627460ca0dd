import Cuttlefish.Session
import Cuttlefish.Slots

/-!
# Cuttlefish.Session.View

The server as one session sees it, and what one step of a request can do to
it.  `LocalStep` has one case for each way through the handler, and
`Local.next_cases` says that there are no others.
-/

namespace Cuttlefish

/-! ## views -/

/-- The server from the side of one session, with its requests. -/
structure View where
  config : AuthConfig
  now : Int
  row : Option Session
  account : Option Account
  requests : Slots Request

def World.view (w : World) (i : SessionId) : View where
  config := w.config
  now := w.now
  row := w.sessions i
  account := w.accounts i
  requests pid := (w.requests[pid]?).filter fun r => r.id = i

/-- What a request of the session wrote. -/
def View.put (v : View) (pid : Nat) (l : Local) : View :=
  { v with row := l.row, account := l.account, requests := v.requests.set pid l.request }

/-- A request with the session's cookie has come in. -/
def View.arrive (v : View) (i : SessionId) (pid : Nat) : View :=
  { v with requests := v.requests.set pid (newRequest v.now i v.account) }

/-! ## steps of a request -/

/-- What a step of a request can do. -/
inductive LocalStep (config : AuthConfig) (now : Int) (l : Local) : RequestAction → Local → Prop
  /-- No live row, or the statement failed. -/
  | denied {act : RequestAction} (hstage : ¬ l.request.stage.InFlight) :
      LocalStep config now l act (l.goto .unauthorized)
  | selectLocal {s : Session} (hstage : l.request.stage = .started) (hrow : l.row = some s)
      (hlive : now < s.expiresAt) (hmode : config.mode ≠ .oidc) :
      LocalStep config now l (.select true) (l.goto (.authorized s.username s.groups))
  | select {s : Session} (hstage : l.request.stage = .started) (hrow : l.row = some s)
      (hlive : now < s.expiresAt) (hmode : config.mode = .oidc) :
      LocalStep config now l (.select true) (l.goto (.selected s.username s.groups))
  /-- Not due, or the row is gone. -/
  | missed {user : Text} {groups : List Text} (hstage : l.request.stage = .selected user groups)
      (hmiss : ∀ s, l.row = some s → now - config.oidc.recheckInterval ≤ s.checkedAt) :
      LocalStep config now l (.claim true) (l.goto (.authorized user groups))
  | tokenless {user : Text} {groups : List Text} {s : Session}
      (hstage : l.request.stage = .selected user groups) (hrow : l.row = some s)
      (htoken : s.refreshToken = none) :
      LocalStep config now l (.claim true)
        ({ l with row := some { s with checkedAt := now } }.goto (.authorized user groups))
  | claim {user : Text} {groups : List Text} {s : Session} {token : Text}
      (hstage : l.request.stage = .selected user groups) (hrow : l.row = some s)
      (hdue : s.checkedAt < now - config.oidc.recheckInterval)
      (htoken : s.refreshToken = some token) :
      LocalStep config now l (.claim true)
        ({ l with row := some { s with checkedAt := now } }.goto (.claimed user token))
  /-- The refresh failed. -/
  | refused {user token : Text} {reply : RefreshReply}
      (hstage : l.request.stage = .claimed user token) :
      LocalStep config now l (.refresh reply) (l.book reply token).conclude
  | refreshed {user token newToken : Text} {idToken : Bool}
      (hstage : l.request.stage = .claimed user token) :
      LocalStep config now l (.refresh (.issued newToken idToken))
        ((l.book (.issued newToken idToken) token).goto (.refreshed user token newToken idToken))
  /-- There are no claims, or not the right ones. -/
  | disclaimed {user token newToken : Text} {idToken : Bool} {reply : Option Claims}
      (hstage : l.request.stage = .refreshed user token newToken idToken) :
      LocalStep config now l (.tokenClaims reply) l.conclude
  | verified {user token newToken : Text} {idToken : Bool} {claims : Claims}
      (hstage : l.request.stage = .refreshed user token newToken idToken) :
      LocalStep config now l (.tokenClaims (some claims))
        (l.verified user (identityFromClaims config.oidc claims).groups
          (if newToken = [] then token else newToken))
  | record {user token : Text} {groups : List Text} {db : Bool}
      (hstage : l.request.stage = .recording user groups token) :
      LocalStep config now l (.record db) (l.record db user groups token)
  | revoke {db : Bool} (hstage : l.request.stage = .revoking) :
      LocalStep config now l (.revoke db) (l.revoke db)
  | resolve {user : Text} {groups : List Text} {db : Bool}
      (hstage : l.request.stage = .authorized user groups) :
      LocalStep config now l (.resolve db) (l.goto (resolveRole config db groups))
  | cancel : LocalStep config now l .cancel
      { l with request := { l.request with cancelled := true } }

theorem loadSession_cases {config : AuthConfig} {now : Int} {l : Local} {db : Bool}
    (hstage : l.request.stage = .started) :
    LocalStep config now l (.select db) (l.goto (loadSession config now db l.row)) := by
  rw [loadSession]
  have hdenied : ¬ l.request.stage.InFlight := by rw [hstage]; exact id
  cases db with
  | false => exact .denied hdenied
  | true =>
      cases hrow : l.row.filter fun s => now < s.expiresAt with
      | none => exact .denied hdenied
      | some s =>
          obtain ⟨hrow, hlive⟩ := Option.filter_eq_some_iff.mp hrow
          have hlive := of_decide_eq_true hlive
          by_cases hmode : config.mode = .oidc
          · simpa [hmode] using LocalStep.select hstage hrow hlive hmode
          · simpa [hmode] using LocalStep.selectLocal hstage hrow hlive hmode

theorem claim_cases {config : AuthConfig} {now : Int} {l : Local} {db : Bool} {user : Text}
    {groups : List Text} (hstage : l.request.stage = .selected user groups) :
    LocalStep config now l (.claim db) (l.claim config now db user groups) := by
  rw [Local.claim]
  cases db with
  | false => exact .denied (by rw [hstage]; exact id)
  | true =>
      cases hrow : l.row.filter fun s => s.checkedAt < now - config.oidc.recheckInterval with
      | none =>
          refine .missed hstage fun s hs => ?_
          rw [hs, Option.filter_eq_none_iff] at hrow
          simpa using hrow s rfl
      | some s =>
          obtain ⟨hrow, hdue⟩ := Option.filter_eq_some_iff.mp hrow
          cases htoken : s.refreshToken with
          | none => simpa [htoken] using LocalStep.tokenless hstage hrow htoken
          | some token =>
              simpa [htoken] using LocalStep.claim hstage hrow (of_decide_eq_true hdue) htoken

theorem refresh_cases {config : AuthConfig} {now : Int} {l : Local} {reply : RefreshReply}
    {user token : Text} (hstage : l.request.stage = .claimed user token) :
    LocalStep config now l (.refresh reply) (l.refresh reply user token) := by
  cases reply with
  | unreachable => exact .refused hstage
  | refused => exact .refused hstage
  | issued newToken idToken =>
      simp only [Local.refresh]
      split_ifs
      · exact .refused hstage
      · exact .refreshed hstage

theorem verify_cases {config : AuthConfig} {now : Int} {l : Local} {reply : Option Claims}
    {user token newToken : Text} {idToken : Bool}
    (hstage : l.request.stage = .refreshed user token newToken idToken) :
    LocalStep config now l (.tokenClaims reply)
      (l.verify config.oidc reply user token newToken idToken) := by
  rw [Local.verify]
  split
  next => exact .disclaimed hstage
  next claims hclaims =>
      have hreply : reply = some claims := by
        split_ifs at hclaims
        exact hclaims
      subst hreply
      by_cases hbad : (identityFromClaims config.oidc claims).user ≠ user ∨
          ¬ identityAllowed config.oidc (identityFromClaims config.oidc claims).user
            (identityFromClaims config.oidc claims).email
      · simpa only [if_pos hbad] using LocalStep.disclaimed hstage
      · simpa only [if_neg hbad] using LocalStep.verified hstage

/-- **The steps of a request.** -/
theorem Local.next_cases {config : AuthConfig} {now : Int} {l l' : Local} {act : RequestAction}
    (h : l.next config now act = some l') : LocalStep config now l act l' := by
  cases act <;> simp only [Local.next] at h
  case cancel =>
      cases h
      exact .cancel
  all_goals
    split at h
    next hstage =>
        cases h
        first
        | exact loadSession_cases hstage
        | exact claim_cases hstage
        | exact refresh_cases hstage
        | exact verify_cases hstage
        | exact .record hstage
        | exact .revoke hstage
        | exact .resolve hstage
    next => cases h

section Frame

variable {config : AuthConfig} {now : Int} {l l' : Local} {act : RequestAction}

/-- A request keeps its session and the marks it started with. -/
theorem LocalStep.request_eq (h : LocalStep config now l act l') :
    l'.request =
      { l.request with stage := l'.request.stage, cancelled := l'.request.cancelled } := by
  cases h <;> rfl

/-- Nobody changes hands. -/
theorem LocalStep.account_cases (h : LocalStep config now l act l') {a' : Account}
    (ha' : l'.account = some a') :
    ∃ a, l.account = some a ∧ a'.username = a.username ∧ a'.origin = a.origin := by
  have hbook : ∀ (reply : RefreshReply) (token : Text) (a : Account),
      (reply.book token a).username = a.username ∧ (reply.book token a).origin = a.origin := by
    intro reply token a
    cases reply <;> exact ⟨rfl, rfl⟩
  cases h
  case refused | refreshed | disclaimed | verified =>
    simp only [Local.conclude, Local.goto, Local.book, Local.verified, Option.map_map,
      Option.map_eq_some_iff] at ha'
    obtain ⟨a, ha, rfl⟩ := ha'
    exact ⟨a, ha, by simp [Account.conclude, Account.verify, hbook]⟩
  all_goals exact ⟨a', ha', rfl, rfl⟩

theorem LocalStep.account_ne_none (h : LocalStep config now l act l') (ha : l'.account = none) :
    l.account = none := by
  cases h
  case refused | refreshed | disclaimed | verified =>
    simpa [Local.conclude, Local.goto, Local.book, Local.verified] using ha
  all_goals exact ha

/-- A step never brings a row back, and only a claim moves `checkedAt`. -/
theorem LocalStep.row_cases (h : LocalStep config now l act l') {s' : Session}
    (hs' : l'.row = some s') :
    ∃ s, l.row = some s ∧ s'.expiresAt = s.expiresAt ∧
      (s'.refreshToken = none → s.refreshToken = none) ∧
      (s'.checkedAt = s.checkedAt ∨ s'.checkedAt = now ∧
        (s.refreshToken = none ∨ ∃ user token, l'.request.stage = .claimed user token)) := by
  cases h
  case tokenless hrow htoken =>
    cases hs'
    exact ⟨_, hrow, rfl, id, Or.inr ⟨rfl, Or.inl htoken⟩⟩
  case claim hrow _ _ =>
    cases hs'
    exact ⟨_, hrow, rfl, id, Or.inr ⟨rfl, Or.inr ⟨_, _, rfl⟩⟩⟩
  case record db _ =>
    cases db with
    | false => exact ⟨s', hs', rfl, id, Or.inl rfl⟩
    | true =>
        obtain ⟨s, hs, rfl⟩ := Option.map_eq_some_iff.mp hs'
        exact ⟨s, hs, rfl, nofun, Or.inl rfl⟩
  case revoke db _ =>
    cases db with
    | false => exact ⟨s', hs', rfl, id, Or.inl rfl⟩
    | true => cases hs'
  all_goals exact ⟨s', hs', rfl, id, Or.inl rfl⟩

theorem LocalStep.row_eq_none (h : LocalStep config now l act l') (hrow : l.row = none) :
    l'.row = none := by
  cases hrow' : l'.row with
  | none => rfl
  | some s' =>
      obtain ⟨s, hs, -⟩ := h.row_cases hrow'
      rw [hrow] at hs
      contradiction

end Frame

end Cuttlefish
