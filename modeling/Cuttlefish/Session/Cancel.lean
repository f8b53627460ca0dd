import Cuttlefish.Session.Move

/-!
# Cuttlefish.Session.Cancel

Requests a client abandons.  The calls of a re-check run in the context of
the request that claimed it, so a client that hangs up makes them fail, and a
failed call revokes the session.

A row goes by a logout, by the cleanup of expired rows or by a revocation
(`World.step_row`), and while no call runs in a cancelled request, nothing is
revoked.
-/

namespace Cuttlefish

/-- The claims name the user, whom the allowlists permit. -/
def SameIdentity (config : OIDCConfig) (user : Text) (claims : Claims) : Prop :=
  (identityFromClaims config claims).user = user ∧
    identityAllowed config (identityFromClaims config claims).user
      (identityFromClaims config claims).email = true

instance (config : OIDCConfig) (user : Text) : DecidablePred (SameIdentity config user) :=
  fun _ => inferInstanceAs (Decidable (_ ∧ _))

/-- The provider accepts every refresh request that reaches it, and answers
with the identity of the session; only a cancelled call goes unanswered. -/
def ProviderAccepts (w : World) : Action → Prop
  | .request _ (.refresh .refused) => False
  | .request pid (.refresh .unreachable) => ∀ r ∈ w.requests[pid]?, r.cancelled = true
  | .request pid (.tokenClaims none) => ∀ r ∈ w.requests[pid]?, r.cancelled = true
  | .request pid (.tokenClaims (some claims)) =>
      ∀ r ∈ w.requests[pid]?, ∀ a ∈ w.accounts r.id,
        SameIdentity w.config.oidc a.username claims
  | _ => True

instance (w : World) : DecidablePred (ProviderAccepts w)
  | .request _ (.refresh .refused) => isFalse id
  | .request _ (.refresh .unreachable) | .request _ (.tokenClaims none)
  | .request _ (.tokenClaims (some _)) => inferInstanceAs (Decidable (∀ r ∈ _, _))
  | .request _ (.refresh (.issued _ _)) | .request _ (.select _) | .request _ (.claim _)
  | .request _ (.record _) | .request _ (.revoke _) | .request _ (.resolve _)
  | .request _ .cancel | .tick _ | .start _ | .logout _ _ | .login .. | .restart _ =>
      isTrue trivial

/-- The claims are still to be asked for. -/
def Stage.NeedsUserinfo : Stage → Prop
  | .refreshed _ _ _ false => True
  | _ => False

instance : DecidablePred Stage.NeedsUserinfo
  | .refreshed _ _ _ false => isTrue trivial
  | .refreshed _ _ _ true | .started | .selected .. | .claimed .. | .recording .. | .revoking
  | .unauthorized | .authorized .. | .resolved .. | .failed _ => isFalse id

/-- No call to the provider runs in a request that was cancelled. -/
def CallsUncancelled (w : World) : Action → Prop
  | .request pid (.refresh _) => ∀ r ∈ w.requests[pid]?, r.cancelled = false
  | .request pid (.tokenClaims none) => ∀ r ∈ w.requests[pid]?, r.cancelled = false
  | .request pid (.tokenClaims (some _)) =>
      ∀ r ∈ w.requests[pid]?, r.stage.NeedsUserinfo → r.cancelled = false
  | _ => True

instance (w : World) : DecidablePred (CallsUncancelled w)
  | .request _ (.refresh _) | .request _ (.tokenClaims none)
  | .request _ (.tokenClaims (some _)) => inferInstanceAs (Decidable (∀ r ∈ _, _))
  | .request _ (.select _) | .request _ (.claim _) | .request _ (.record _)
  | .request _ (.revoke _) | .request _ (.resolve _) | .request _ .cancel | .tick _ | .start _
  | .logout _ _ | .login .. | .restart _ => isTrue trivial

/-! ## how a row goes -/

theorem LocalStep.row_gone {config : AuthConfig} {now : Int} {l l' : Local} {act : RequestAction}
    {s : Session} (h : LocalStep config now l act l') (hs : l.row = some s)
    (hgone : l'.row = none) :
    l.request.stage = .revoking := by
  cases h with
  | revoke hstage => exact hstage
  | record _ =>
      have hkept : (if _ then _ else l.row) = none := hgone
      split_ifs at hkept <;> simp [hs] at hkept
  | _ =>
      have hkept : _ = none := hgone
      simp [Local.goto, Local.conclude, Local.book, Local.verified, hs] at hkept

/-- A login drops expired rows only. -/
theorem World.issueSession_row {w : World} {i j : SessionId} {s : Session} {login : Login}
    {cleanup insert : Bool} (hs : w.sessions i = some s)
    (hgone : (w.issueSession j login cleanup insert).sessions i = none) : s.expiresAt < w.now := by
  have hcleaned : (w.cleanup cleanup).sessions i = none := by
    cases insert with
    | false => exact hgone
    | true =>
        by_cases hi : i = j
        · simp [World.issueSession, hi] at hgone
        · simpa [World.issueSession, hi] using hgone
  cases cleanup with
  | false => cases hs.symm.trans hcleaned
  | true => simpa [World.cleanup, hs] using hcleaned

/-- **How a row goes**: by a logout, because it expired, or by a re-check
that came to that. -/
theorem World.step_row {w w' : World} {a : Action} {i : SessionId} {s : Session}
    (hstep : w.step a = some w') (hs : w.sessions i = some s) (hgone : w'.sessions i = none) :
    a = .logout i true ∨ s.expiresAt < w.now ∨
      ∃ r ∈ w.requests, r.id = i ∧ r.stage = .revoking := by
  cases a with
  | tick d | start j =>
      cases hstep
      cases hs.symm.trans hgone
  | request pid act =>
      simp only [World.step] at hstep
      cases hr : w.requests[pid]? with
      | none => simp [hr] at hstep
      | some r =>
          rw [hr] at hstep
          obtain ⟨l, hl, rfl⟩ := Option.map_eq_some_iff.mp hstep
          by_cases hi : i = r.id
          · subst hi
            have hrow : l.row = none := by simpa [World.put] using hgone
            exact Or.inr (Or.inr ⟨r, List.mem_of_getElem? hr, rfl,
              (Local.next_cases hl).row_gone hs hrow⟩)
          · have hkept : w.sessions i = none := by simpa [World.put, hi] using hgone
            cases hs.symm.trans hkept
  | logout j db =>
      cases hstep
      cases db with
      | false => cases hs.symm.trans hgone
      | true =>
          by_cases hi : i = j
          · exact Or.inl (by rw [hi])
          · have hkept : w.sessions i = none := by simpa [hi] using hgone
            cases hs.symm.trans hkept
  | login j credential cleanup insert =>
      simp only [World.step] at hstep
      split at hstep
      next login hlogin hnew =>
          cases hstep
          exact Or.inr (Or.inl (World.issueSession_row hs hgone))
      next => cases hstep
  | restart raw =>
      obtain ⟨config, -, rfl⟩ := Option.map_eq_some_iff.mp hstep
      cases hs.symm.trans hgone

/-! ## nobody is revoked -/

/-- The user a request goes by. -/
def Stage.user? : Stage → Option Text
  | .selected user _ | .claimed user _ | .refreshed user _ _ _ | .recording user _ _
  | .authorized user _ => some user
  | _ => none

theorem Stage.Outside.user? {stage : Stage} (h : stage.Outside) : stage.user? = none := by
  cases stage <;> first | rfl | exact h.elim

/-- The row and the requests of a session go by its user. -/
structure Named (v : View) (a : Account) : Prop where
  row : ∀ s, v.row = some s → s.username = a.username
  requests : v.requests.All fun r => ∀ user, r.stage.user? = some user → user = a.username

section Step

variable {config : AuthConfig} {now : Int} {l l' : Local} {act : RequestAction}

theorem LocalStep.row_username (h : LocalStep config now l act l') {s' : Session}
    (hs' : l'.row = some s') : ∃ s, l.row = some s ∧ s'.username = s.username := by
  cases h with
  | tokenless _ hrow _ | claim _ hrow _ _ =>
      cases hs'
      exact ⟨_, hrow, rfl⟩
  | @record _ _ _ db _ =>
      cases db with
      | false => exact ⟨s', hs', rfl⟩
      | true =>
          obtain ⟨s, hs, rfl⟩ := Option.map_eq_some_iff.mp hs'
          exact ⟨s, hs, rfl⟩
  | @revoke db _ =>
      cases db with
      | false => exact ⟨s', hs', rfl⟩
      | true => cases hs'
  | _ => exact ⟨s', hs', rfl⟩

/-- A request keeps its user, whom it has from the row. -/
theorem LocalStep.user_cases (h : LocalStep config now l act l') {user : Text}
    (huser : l'.request.stage.user? = some user) :
    l.request.stage.user? = some user ∨ ∃ s, l.row = some s ∧ s.username = user := by
  cases h with
  | selectLocal _ hrow _ _ | select _ hrow _ _ => exact Or.inr ⟨_, hrow, Option.some.inj huser⟩
  | missed hstage _ | tokenless hstage _ _ | claim hstage _ _ _ | refreshed hstage
  | verified hstage | record hstage =>
      rw [hstage]
      exact Or.inl huser
  | resolve _ =>
      rw [Local.goto, resolveRole] at huser
      split_ifs at huser <;> cases huser
  | cancel => exact Or.inl huser
  | _ => cases huser

/-- The refresh succeeds. -/
theorem Local.refresh_issued (hlive : l.request.cancelled = false) (user token newToken : Text)
    (idToken : Bool) :
    (l.refresh (.issued newToken idToken) user token).request.stage =
      .refreshed user token newToken idToken := by
  simp [Local.refresh, Local.book, hlive, Local.goto]

/-- The claims are those of the session's user. -/
theorem Local.verify_sameIdentity {config : OIDCConfig} {user : Text} {claims : Claims}
    {idToken : Bool} (hlive : idToken = false → l.request.cancelled = false)
    (hsame : SameIdentity config user claims) (token newToken : Text) :
    (l.verify config (some claims) user token newToken idToken).request.stage =
      .recording user (identityFromClaims config claims).groups
        (if newToken = [] then token else newToken) := by
  have hcall : ¬ (idToken = false ∧ l.request.cancelled = true) := by
    intro hcall
    simp [hlive hcall.1] at hcall
  obtain ⟨huser, hallowed⟩ := hsame
  simp [Local.verify, hcall, huser, huser ▸ hallowed, Local.verified, Local.goto]

/-- A re-check that the provider accepts does not come to a revocation. -/
theorem Local.next_ne_revoking (h : l.next config now act = some l')
    (hstage : l.request.stage ≠ .revoking)
    (hrefresh : ∀ reply, act = .refresh reply →
      l.request.cancelled = false ∧ ∃ token idToken, reply = .issued token idToken)
    (hclaims : ∀ reply user token newToken idToken, act = .tokenClaims reply →
      l.request.stage = .refreshed user token newToken idToken →
        (idToken = false → l.request.cancelled = false) ∧
          ∃ claims, reply = some claims ∧ SameIdentity config.oidc user claims) :
    l'.request.stage ≠ .revoking := by
  cases Local.next_cases h with
  | refused hclaimed =>
      obtain ⟨hlive, token, idToken, rfl⟩ := hrefresh _ rfl
      simp only [Local.next, hclaimed] at h
      rw [← Option.some.inj h, Local.refresh_issued hlive]
      intro hrevoking
      contradiction
  | disclaimed hrefreshed =>
      obtain ⟨hlive, claims, rfl, hsame⟩ := hclaims _ _ _ _ _ rfl hrefreshed
      simp only [Local.next, hrefreshed] at h
      rw [← Option.some.inj h, Local.verify_sameIdentity hlive hsame]
      intro hrevoking
      contradiction
  | resolve _ =>
      rw [Local.goto, resolveRole]
      split_ifs <;> simp
  | cancel => exact hstage
  | _ =>
      intro hrevoking
      contradiction

end Step

theorem Named.move {i : SessionId} {v v' : View} {act : Action}
    (hv : ∀ a, v.account = some a → Named v a) (hnew : v.Unissued) (h : ViewStep i v act v')
    {a : Account} (ha : v'.account = some a) : Named v' a := by
  cases h with
  | elsewhere =>
      obtain ⟨hrow, hrequests⟩ := hv a ha
      exact ⟨hrow, hrequests⟩
  | start =>
      obtain ⟨hrow, hrequests⟩ := hv a ha
      exact ⟨hrow, hrequests.set fun user huser => by cases huser⟩
  | @request pid r _ l hr hlocal =>
      obtain ⟨a₀, ha₀, hname, -⟩ := hlocal.account_cases ha
      obtain ⟨hrow, hrequests⟩ := hv a₀ ha₀
      refine ⟨fun s' hs' => ?_, ?_⟩
      · obtain ⟨s, hs, hsame⟩ := hlocal.row_username hs'
        rw [hsame, hrow s hs, hname]
      · rw [hname]
        refine hrequests.set fun user huser => ?_
        cases hlocal.user_cases huser with
        | inl hold => exact hrequests pid r hr user hold
        | inr hread =>
            obtain ⟨s, hs, rfl⟩ := hread
            exact hrow s hs
  | removed =>
      obtain ⟨-, hrequests⟩ := hv a ha
      refine ⟨fun s hs => ?_, hrequests⟩
      cases hs
  | login _ hnone =>
      obtain ⟨-, hrequests⟩ := hnew hnone
      cases ha
      refine ⟨fun s hs => ?_, hrequests.imp fun r hunserved user huser => ?_⟩
      · cases hs
        rfl
      · rw [hunserved.1.user?] at huser
        cases huser
  | restart =>
      obtain ⟨hrow, -⟩ := hv a ha
      exact ⟨hrow, Slots.all_empty⟩

/-! ## the law -/

/-- What a run is assumed to be, but for cancelled calls. -/
def Accepted (w : World) (a : Action) : Prop := StatementsSucceed a ∧ ProviderAccepts w a

instance (w : World) : DecidablePred (Accepted w) := fun _ => inferInstanceAs (Decidable (_ ∧ _))

/-- A step takes a session row away only by a logout, or once it expired. -/
def RowsKept (w : World) : Prop :=
  ∀ a, Accepted w a → ∀ w', w.step a = some w' → ∀ i s, w.sessions i = some s →
    w'.sessions i = none → a = .logout i true ∨ s.expiresAt < w.now

/-- Nobody is about to be revoked. -/
def NoneRevoked (w : World) : Prop := ∀ r ∈ w.requests, r.stage ≠ .revoking

theorem NoneRevoked.rowsKept {w : World} (h : NoneRevoked w) : RowsKept w := by
  intro a _ w' hstep i s hs hgone
  rcases World.step_row hstep hs hgone with hlogout | hexpired | ⟨r, hr, -, hstage⟩
  · exact Or.inl hlogout
  · exact Or.inr hexpired
  · exact absurd hstage (h r hr)

section Request

variable {w : World} {pid : Nat} {r : Request}

/-- What the provider answers to a refresh call that is not cancelled. -/
theorem issued_of_accepted {reply : RefreshReply} (hr : w.requests[pid]? = some r)
    (haccept : Accepted w (.request pid (.refresh reply)))
    (hcalls : CallsUncancelled w (.request pid (.refresh reply))) :
    r.cancelled = false ∧ ∃ token idToken, reply = .issued token idToken := by
  have hlive : r.cancelled = false := hcalls r hr
  refine ⟨hlive, ?_⟩
  cases reply with
  | unreachable =>
      have hcancelled : r.cancelled = true := haccept.2 r hr
      rw [hlive] at hcancelled
      contradiction
  | refused => exact haccept.2.elim
  | issued token idToken => exact ⟨token, idToken, rfl⟩

/-- The claims it answers with are those of the session's user. -/
theorem sameIdentity_of_accepted {reply : Option Claims} {user token newToken : Text}
    {idToken : Bool} {acc : Account} (hr : w.requests[pid]? = some r)
    (hacc : w.accounts r.id = some acc) (hname : user = acc.username)
    (hstage : r.stage = .refreshed user token newToken idToken)
    (haccept : Accepted w (.request pid (.tokenClaims reply)))
    (hcalls : CallsUncancelled w (.request pid (.tokenClaims reply))) :
    (idToken = false → r.cancelled = false) ∧
      ∃ claims, reply = some claims ∧ SameIdentity w.config.oidc user claims := by
  cases reply with
  | none =>
      have hcancelled : r.cancelled = true := haccept.2 r hr
      have hlive : r.cancelled = false := hcalls r hr
      rw [hlive] at hcancelled
      contradiction
  | some claims =>
      refine ⟨fun hid => ?_, claims, rfl, hname ▸ haccept.2 r hr acc hacc⟩
      subst hid
      have hneeds : r.stage.NeedsUserinfo := by rw [hstage]; trivial
      exact hcalls r hr hneeds

end Request

theorem NoneRevoked.request {w : World} {pid : Nat} {act : RequestAction} {r : Request}
    {l : Local} (h : NoneRevoked w)
    (hnamed : ∀ acc, (w.view r.id).account = some acc → Named (w.view r.id) acc)
    (hnew : (w.view r.id).Unissued) (haccept : Accepted w (.request pid act))
    (hcalls : CallsUncancelled w (.request pid act)) (hr : w.requests[pid]? = some r)
    (hl : Local.next w.config w.now ⟨w.sessions r.id, w.accounts r.id, r⟩ act = some l) :
    NoneRevoked (w.put pid r.id l) := by
  have hview : (w.view r.id).requests pid = some r := World.requests_view.mpr ⟨hr, rfl⟩
  have hmoved : l.request.stage ≠ .revoking := by
    refine Local.next_ne_revoking hl (h r (List.mem_of_getElem? hr)) ?_ ?_
    · intro reply hact
      subst hact
      exact issued_of_accepted hr haccept hcalls
    · intro reply user token newToken idToken hact hstage
      subst hact
      have hstage : r.stage = .refreshed user token newToken idToken := hstage
      cases hacc : w.accounts r.id with
      | none =>
          -- a request that has no session has nothing to re-check
          have houtside := ((hnew hacc).2 pid r hview).1
          rw [hstage] at houtside
          exact houtside.elim
      | some acc =>
          have hname : user = acc.username :=
            (hnamed acc hacc).requests pid r hview user (by rw [hstage]; rfl)
          exact sameIdentity_of_accepted hr hacc hname hstage haccept hcalls
  intro r' hr'
  cases List.mem_or_eq_of_mem_set hr' with
  | inl hold => exact h r' hold
  | inr heq => exact heq ▸ hmoved

theorem NoneRevoked.step {w w' : World} {a : Action} (h : NoneRevoked w)
    (hnamed : ∀ i acc, (w.view i).account = some acc → Named (w.view i) acc)
    (hnew : ∀ i, (w.view i).Unissued) (haccept : Accepted w a) (hcalls : CallsUncancelled w a)
    (hstep : w.step a = some w') : NoneRevoked w' := by
  cases a with
  | tick _ =>
      cases hstep
      exact h
  | start j =>
      cases hstep
      intro r hr
      cases List.mem_append.mp hr with
      | inl hold => exact h r hold
      | inr hnew =>
          rw [List.mem_singleton.mp hnew]
          exact nofun
  | request pid act =>
      simp only [World.step] at hstep
      cases hr : w.requests[pid]? with
      | none => simp [hr] at hstep
      | some r =>
          rw [hr] at hstep
          obtain ⟨l, hl, rfl⟩ := Option.map_eq_some_iff.mp hstep
          exact h.request (hnamed r.id) (hnew r.id) haccept hcalls hr hl
  | logout _ db =>
      cases hstep
      cases db <;> exact h
  | login j credential cleanup insert =>
      simp only [World.step] at hstep
      split at hstep
      next login hlogin hnone =>
          cases hstep
          cases cleanup <;> cases insert <;> exact h
      next => cases hstep
  | restart _ => exact haccept.1.elim

/-- **Nobody is signed out by a cancelled request**, in every run in which
the calls to the provider are not cancelled. -/
theorem rows_kept {config : AuthConfig} {w : World}
    (h : Reachable World.step (fun w a => Accepted w a ∧ CallsUncancelled w a)
      (World.init config) w) : RowsKept w := by
  have hinv : NoneRevoked w ∧ ∀ i a, (w.view i).account = some a → Named (w.view i) a := by
    refine h.invariant (fun w => NoneRevoked w ∧
      ∀ i a, (w.view i).account = some a → Named (w.view i) a) ⟨?_, ?_⟩ ?_
    · intro r hr
      cases hr
    · intro i a ha
      cases ha
    · intro w a w' hw hinv hmeets hstep
      obtain ⟨hnone, hnamed⟩ := hinv
      have hnew := unissued_of_reachable hw
      refine ⟨hnone.step hnamed hnew hmeets.1 hmeets.2 hstep, fun i acc hacc => ?_⟩
      exact Named.move (hnamed i) (hnew i) (World.step_view hstep i) hacc
  exact hinv.1.rowsKept

/-- Alice's re-check is answered after a request of hers was cancelled. -/
theorem rows_kept_alice : ∃ w,
    Reachable World.step (fun w a => Accepted w a ∧ CallsUncancelled w a)
      (World.init sampleConfig) w ∧
    w.requests.map (·.cancelled) = [false, true] ∧ w.now = 25 ∧ RowsKept w := by
  obtain ⟨w, hw, hcancelled, hnow⟩ := exists_reachable World.step
    (fun w a => Accepted w a ∧ CallsUncancelled w a) (World.init sampleConfig)
    (fun w => w.requests.map (·.cancelled) = [false, true] ∧ w.now = 25)
    ([sampleLogin, .tick 14] ++ sampleClaim 0 ++
      [.start [1], .request 1 .cancel, .request 0 (.refresh (.issued "r1".toList true)),
        .request 0 (.tokenClaims (some (sampleClaims "admins"))), .request 0 (.record true),
        .tick 11])
    (by decide +kernel)
  exact ⟨w, hw, hcancelled, hnow, rows_kept hw⟩

/-- Alice hangs up while her re-check is under way, and is signed out. -/
theorem abandoned_request_signs_out : ∃ w,
    Reachable World.step Accepted (World.init sampleConfig) w ∧ ¬ RowsKept w := by
  obtain ⟨w, hw, hlive, haccept, hgone⟩ := exists_reachable World.step Accepted
    (World.init sampleConfig)
    (fun w => (∃ s ∈ w.sessions [1], ¬ s.expiresAt < w.now) ∧
      Accepted w (.request 0 (.revoke true)) ∧
        ∃ w' ∈ w.step (.request 0 (.revoke true)), w'.sessions [1] = none)
    ([sampleLogin, .tick 14] ++ sampleClaim 0 ++
      [.request 0 .cancel, .request 0 (.refresh .unreachable)])
    (by decide +kernel)
  refine ⟨w, hw, fun hkept => ?_⟩
  obtain ⟨s, hs, hexpires⟩ := hlive
  obtain ⟨w', hstep, hrow⟩ := hgone
  cases hkept _ haccept w' hstep [1] s hs hrow with
  | inl hlogout => cases hlogout
  | inr hexpired => exact hexpires hexpired

end Cuttlefish
