import Cuttlefish.Session.Move

/-!
# Cuttlefish.Session.Recheck

How long the provider's verdict takes to reach a session.

A claim moves `checked_at` before the provider has answered, so a session that
counts as checked may still wait for a refusal, and other requests carry on
with the stored groups.  `Stopped` says that someone waits then, and
`cutOff_of_claimsAlone` that late requests are turned away as long as none of
them comes to claim a re-check in between.
-/

namespace Cuttlefish

/-- The provider accepts the user before time `t` only. -/
def AcceptsBefore (user : Text) (t : Int) (w : World) : Action → Prop
  | .login _ (.code claims _) _ _ =>
      (identityFromClaims w.config.oidc claims).user = user → w.now < t
  | .request pid (.refresh (.issued _ _)) =>
      ∀ r ∈ w.requests[pid]?, ∀ a ∈ w.accounts r.id, a.username = user → w.now < t
  | _ => True

instance (user : Text) (t : Int) (w : World) : DecidablePred (AcceptsBefore user t w)
  | .login _ (.code _ _) _ _ => inferInstanceAs (Decidable (_ → _))
  | .request _ (.refresh (.issued _ _)) => inferInstanceAs (Decidable (∀ r ∈ _, _))
  | .request _ (.refresh .unreachable) | .request _ (.refresh .refused)
  | .request _ (.select _) | .request _ (.claim _) | .request _ (.tokenClaims _)
  | .request _ (.record _) | .request _ (.revoke _) | .request _ (.resolve _)
  | .request _ .cancel | .login _ (.password _ _) _ _ | .tick _ | .start _ | .logout _ _
  | .restart _ => isTrue trivial

/-- A request that starts after `limit` finds its row when it comes to claim
the re-check, and when that is not due, no other is under way. -/
def ClaimsAlone (user : Text) (limit : Int) (w : World) : Action → Prop
  | .request pid (.claim _) =>
      ∀ r ∈ w.requests[pid]?, ∀ a ∈ w.accounts r.id, a.username = user → limit < r.startedAt →
        ∃ s ∈ w.sessions r.id, s.checkedAt < w.now - w.config.oidc.recheckInterval ∨
          ∀ r' ∈ w.others pid, ¬ r'.stage.InFlight
  | _ => True

instance (user : Text) (limit : Int) (w : World) : DecidablePred (ClaimsAlone user limit w)
  | .request _ (.claim _) => inferInstanceAs (Decidable (∀ r ∈ _, _))
  | .request _ (.select _) | .request _ (.refresh _) | .request _ (.tokenClaims _)
  | .request _ (.record _) | .request _ (.revoke _) | .request _ (.resolve _)
  | .request _ .cancel | .tick _ | .start _ | .logout _ _ | .login .. | .restart _ =>
      isTrue trivial

/-- A re-check that has a refusal to wait for. -/
def Stage.Doomed : Stage → Prop
  | .claimed .. | .revoking => True
  | _ => False

theorem Stage.Doomed.inFlight {stage : Stage} (h : stage.Doomed) : stage.InFlight := by
  cases stage <;> first | exact h.elim | trivial

/-- Where a request that started late can stand; the row it read still has
time to live. -/
def Stage.Late (row : Option Session) (limit : Int) : Stage → Prop
  | .started | .unauthorized | .claimed .. | .revoking => True
  | .selected .. => ∀ s, row = some s → limit < s.expiresAt
  | _ => False

theorem Stage.Late.mono {row row' : Option Session} {limit : Int} {stage : Stage}
    (hrow : ∀ s', row' = some s' → ∃ s, row = some s ∧ s'.expiresAt = s.expiresAt)
    (h : stage.Late row limit) : stage.Late row' limit := by
  cases stage with
  | selected user groups =>
      intro s' hs'
      obtain ⟨s, hs, hsame⟩ := hrow s' hs'
      rw [hsame]
      exact h s hs
  | _ => exact h

theorem Stage.Late.groups? {row : Option Session} {limit : Int} {stage : Stage}
    (h : stage.Late row limit) : stage.groups? = none := by
  cases stage <;> first | rfl | exact h.elim

/-- The session of a user the provider stopped accepting at `t`. -/
structure Stopped (t d : Int) (v : View) : Prop where
  /-- It is not asked about after `t` without a request that waits for the
  refusal. -/
  pending : ∀ s, v.row = some s → t + d < s.expiresAt → t ≤ s.checkedAt →
    v.requests.Any fun r => r.stage.Doomed
  tokenless : ∀ s, v.row = some s → s.refreshToken = none → s.expiresAt < t + d
  late : v.requests.All fun r => t + d < r.startedAt → r.stage.Late v.row (t + d)

/-- What holds of every session while the configuration stays. -/
structure Timely (config : AuthConfig) (v : View) : Prop where
  config_eq : v.config = config
  checked : ∀ s, v.row = some s → s.checkedAt ≤ v.now
  started : v.requests.All fun r => r.startedAt ≤ v.now

section Request

variable {config : AuthConfig} {t : Int} {v : View} {pid : Nat} {r : Request}
  {act : RequestAction} {l : Local}

theorem Timely.request (hv : Timely config v) (hr : v.requests pid = some r)
    (h : LocalStep v.config v.now ⟨v.row, v.account, r⟩ act l) : Timely config (v.put pid l) where
  config_eq := hv.config_eq
  checked s' hs' := by
    obtain ⟨s, hs, -, -, hchecked | ⟨hchecked, -⟩⟩ := h.row_cases hs'
    · exact hchecked ▸ hv.checked s hs
    · exact hchecked.le
  started := by
    refine hv.started.set ?_
    rw [h.request_eq]
    exact hv.started pid r hr

variable (hmode : config.mode = .oidc) (hd : 0 < config.oidc.recheckInterval)

include hmode hd in
theorem Stopped.late_request (hv : Timely config v)
    (hstop : Stopped t config.oidc.recheckInterval v) (hr : v.requests pid = some r)
    (hrefresh : ∀ n b, act = .refresh (.issued n b) → v.now < t)
    (hclaim : ∀ db, act = .claim db → t + config.oidc.recheckInterval < r.startedAt →
      ∃ s, v.row = some s ∧ (s.checkedAt < v.now - v.config.oidc.recheckInterval ∨
        v.requests.Others pid fun r => ¬ r.stage.InFlight))
    (h : LocalStep v.config v.now ⟨v.row, v.account, r⟩ act l)
    (hlate : t + config.oidc.recheckInterval < r.startedAt) :
    l.request.stage.Late l.row (t + config.oidc.recheckInterval) := by
  have hold := hstop.late pid r hr hlate
  have hnow : r.startedAt ≤ v.now := hv.started pid r hr
  rw [hv.config_eq] at h hclaim
  cases h with
  | denied => trivial
  | selectLocal _ _ _ hlocal => exact absurd hmode hlocal
  | select _ hrow hlive _ =>
      intro s hs
      cases hrow.symm.trans hs
      omega
  | missed hstage hmiss =>
      dsimp only at hstage hmiss
      obtain ⟨s, hs, hdue⟩ := hclaim true rfl hlate
      rw [hstage] at hold
      have hchecked := hmiss s hs
      have hothers := hdue.resolve_left (not_lt.mpr hchecked)
      have hwaits := hstop.pending s hs (hold s hs) (by omega)
      have hnobody : v.requests.All fun r => ¬ r.stage.Doomed := by
        refine (Slots.all_iff hr).mpr ⟨?_, hothers.imp fun r' hidle hdoomed => ?_⟩
        · rw [hstage]
          exact id
        · exact hidle hdoomed.inFlight
      exact absurd hwaits hnobody.not_any
  | tokenless hstage hrow htoken =>
      dsimp only at hstage hrow
      rw [hstage] at hold
      have hlong := hold _ hrow
      have hshort := hstop.tokenless _ hrow htoken
      omega
  | claim => trivial
  | refused => trivial
  | refreshed =>
      have hearly := hrefresh _ _ rfl
      omega
  | disclaimed => trivial
  | verified hstage | record hstage | resolve hstage =>
      dsimp only at hstage
      rw [hstage] at hold
      exact hold.elim
  | revoke => trivial
  | cancel => exact hold

/-- Whoever waits for a refusal still waits, or the row is gone. -/
theorem Stage.Doomed.request (hdoomed : r.stage.Doomed)
    (hrefresh : ∀ n b, act ≠ .refresh (.issued n b)) (hdb : StatementsSucceed (.request pid act))
    (h : LocalStep v.config v.now ⟨v.row, v.account, r⟩ act l) :
    l.request.stage.Doomed ∨ l.row = none := by
  cases h with
  | denied hstage => exact (hstage hdoomed.inFlight).elim
  | revoke => exact Or.inr (if_pos hdb)
  | refused => exact Or.inl trivial
  | disclaimed => exact Or.inl trivial
  | claim => exact Or.inl trivial
  | cancel => exact Or.inl hdoomed
  | refreshed => exact absurd rfl (hrefresh _ _)
  | _ hstage =>
      dsimp only at hstage
      rw [hstage] at hdoomed
      exact hdoomed.elim

theorem Stopped.pending_request (hv : Timely config v)
    (hstop : Stopped t config.oidc.recheckInterval v) (hr : v.requests pid = some r)
    (hrefresh : ∀ n b, act = .refresh (.issued n b) → v.now < t)
    (hdb : StatementsSucceed (.request pid act))
    (h : LocalStep v.config v.now ⟨v.row, v.account, r⟩ act l) {s' : Session}
    (hs' : l.row = some s') (hexpires : t + config.oidc.recheckInterval < s'.expiresAt)
    (hchecked : t ≤ s'.checkedAt) : (v.put pid l).requests.Any fun r => r.stage.Doomed := by
  obtain ⟨s, hs, hsame, -, hat | ⟨-, htoken | ⟨user, token, hstage⟩⟩⟩ := h.row_cases hs'
  · -- not claimed here: whoever was waiting still is
    rw [hsame] at hexpires
    rw [hat] at hchecked
    have hnow := hv.checked s hs
    have hnone : ∀ n b, act ≠ .refresh (.issued n b) := by
      intro n b hact
      have hearly := hrefresh n b hact
      omega
    cases (hstop.pending s hs hexpires hchecked).set hr with
    | inl hdoomed =>
        cases hdoomed.request hnone hdb h with
        | inl hdoomed => exact Slots.Any.set_self hdoomed
        | inr hgone =>
            rw [hgone] at hs'
            contradiction
    | inr hany => exact hany
  · have hshort := hstop.tokenless s hs htoken
    omega
  · have hdoomed : l.request.stage.Doomed := by
      rw [hstage]
      trivial
    exact Slots.Any.set_self hdoomed

include hmode hd in
theorem Stopped.request (hv : Timely config v) (hstop : Stopped t config.oidc.recheckInterval v)
    (hr : v.requests pid = some r) (hrefresh : ∀ n b, act = .refresh (.issued n b) → v.now < t)
    (hclaim : ∀ db, act = .claim db → t + config.oidc.recheckInterval < r.startedAt →
      ∃ s, v.row = some s ∧ (s.checkedAt < v.now - v.config.oidc.recheckInterval ∨
        v.requests.Others pid fun r => ¬ r.stage.InFlight))
    (hdb : StatementsSucceed (.request pid act))
    (h : LocalStep v.config v.now ⟨v.row, v.account, r⟩ act l) :
    Stopped t config.oidc.recheckInterval (v.put pid l) where
  pending s' hs' := hstop.pending_request hv hr hrefresh hdb h hs'
  tokenless s' hs' htoken := by
    obtain ⟨s, hs, hsame, hnone, -⟩ := h.row_cases hs'
    rw [hsame]
    exact hstop.tokenless s hs (hnone htoken)
  late := by
    refine Slots.all_set.mpr ⟨fun hlate => ?_, fun q r' hr' _ hlate => ?_⟩
    · rw [h.request_eq] at hlate
      exact hstop.late_request hmode hd hv hr hrefresh hclaim h hlate
    · refine (hstop.late q r' hr' hlate).mono fun s' hs' => ?_
      obtain ⟨s, hs, hsame, -⟩ := h.row_cases hs'
      exact ⟨s, hs, hsame⟩

end Request

/-! ## every move -/

/-- The invariant of one session. -/
structure Recheck (user : Text) (t : Int) (config : AuthConfig) (v : View) : Prop where
  timely : Timely config v
  stopped : ∀ a, v.account = some a → a.username = user →
    Stopped t config.oidc.recheckInterval v

section Step

variable {user : Text} {t : Int} {config : AuthConfig} (hmode : config.mode = .oidc)
  (hd : 0 < config.oidc.recheckInterval)
include hmode hd

/-- A session that is signed in before `t`. -/
theorem Stopped.login {v : View} (hv : Timely config v) (hnow : v.now < t) (login : Login) :
    Stopped t config.oidc.recheckInterval
      { v with
        row := some (newSession v.config v.now login), account := some (newAccount v.now login) }
    where
  pending s hs _ hchecked := by
    cases hs
    exact absurd hchecked (not_le.mpr hnow)
  tokenless s hs htoken := by
    cases hs
    have hnil : login.refreshToken = [] := by simpa [newSession] using htoken
    simp only [newSession, hv.config_eq, hmode, hnil, and_self, if_true]
    omega
  late := by
    refine hv.started.imp fun r hstarted hlate => ?_
    omega

theorem Recheck.move {w : World} {i : SessionId} {a : Action} {v' : View}
    (hinv : Recheck user t config (w.view i)) (hdb : StatementsSucceed a)
    (haccept : AcceptsBefore user t w a)
    (halone : ClaimsAlone user (t + config.oidc.recheckInterval) w a)
    (h : ViewStep i (w.view i) a v') : Recheck user t config v' := by
  obtain ⟨hv, hstop⟩ := hinv
  cases h with
  | elsewhere hnow =>
      refine ⟨⟨hv.config_eq, fun s hs => (hv.checked s hs).trans hnow,
        hv.started.imp fun r hstarted => hstarted.trans hnow⟩, fun a ha hname => ?_⟩
      exact ⟨(hstop a ha hname).pending, (hstop a ha hname).tokenless, (hstop a ha hname).late⟩
  | start hnew =>
      refine ⟨⟨hv.config_eq, hv.checked, hv.started.set le_rfl⟩, fun a ha hname => ?_⟩
      obtain ⟨hpending, htokenless, hlate⟩ := hstop a ha hname
      refine ⟨fun s hs hexpires hchecked => ?_, htokenless, hlate.set fun _ => trivial⟩
      exact (hpending s hs hexpires hchecked).set_of_none hnew
  | @request pid r act l hr hlocal =>
      refine ⟨hv.request hr hlocal, fun a' ha' hname => ?_⟩
      obtain ⟨a, ha, hsame, -⟩ := hlocal.account_cases ha'
      rw [hsame] at hname
      obtain ⟨hr', hid⟩ := World.requests_view.mp hr
      subst hid
      refine (hstop a ha hname).request hmode hd hv hr ?_ ?_ hdb hlocal
      · rintro n b rfl
        exact haccept r hr' a ha hname
      · rintro db rfl hlate
        obtain ⟨s, hs, hdue⟩ := halone r hr' a ha hname hlate
        exact ⟨s, hs, hdue.imp_right (World.others_iff hr).mpr⟩
  | removed =>
      refine ⟨⟨hv.config_eq, nofun, hv.started⟩, fun a ha hname => ⟨nofun, nofun, ?_⟩⟩
      exact (hstop a ha hname).late.imp fun r hold hlate => (hold hlate).mono nofun
  | @login _ _ login hlogin hnew =>
      refine ⟨⟨hv.config_eq, fun s hs => ?_, hv.started⟩, fun a ha hname => ?_⟩
      · cases hs
        exact le_rfl
      · rcases authenticate_cases hlogin with ⟨hlocal, -⟩ | ⟨-, claims, token, rfl, rfl⟩
        · rw [hv.config_eq, hmode] at hlocal
          contradiction
        · cases ha
          exact .login hmode hd hv (haccept hname) _
  | restart => exact hdb.elim

end Step

/-- Requests that started late are not let in. -/
def CutOff (user : Text) (limit : Int) (w : World) : Prop :=
  ∀ r ∈ w.requests, ∀ a ∈ w.accounts r.id, a.username = user → limit < r.startedAt →
    r.stage.groups? = none

instance (user : Text) (limit : Int) (w : World) : Decidable (CutOff user limit w) :=
  inferInstanceAs (Decidable (∀ r ∈ w.requests, _))

/-- **The bound**: while late claims stand alone, a user the provider stops
accepting at `t` is let in by no request that starts more than one interval
later. -/
theorem cutOff_of_claimsAlone {raw config : AuthConfig} (hload : raw.load = some config)
    (hmode : config.mode = .oidc) (user : Text) (t : Int) {w : World}
    (h : Reachable World.step
      (fun w a => StatementsSucceed a ∧ AcceptsBefore user t w a ∧
        ClaimsAlone user (t + config.oidc.recheckInterval) w a)
      (World.init config) w) : CutOff user (t + config.oidc.recheckInterval) w := by
  have hd := AuthConfig.recheckInterval_pos hload hmode
  have hinv : ∀ i, Recheck user t config (w.view i) := by
    refine h.invariant (fun w => ∀ i, Recheck user t config (w.view i)) ?_ ?_
    · intro i
      refine ⟨⟨rfl, fun s hs => ?_, World.all_of_requests (by simp [World.init]) i⟩,
        fun a ha => ?_⟩
      · cases hs
      · cases ha
    · intro w a w' _ hw hmeets hstep i
      obtain ⟨hdb, haccept, halone⟩ := hmeets
      exact (hw i).move hmode hd hdb haccept halone (World.step_view hstep i)
  intro r hr a ha hname hlate
  obtain ⟨q, hq⟩ := List.mem_iff_getElem?.mp hr
  have hview : (w.view r.id).requests q = some r := World.requests_view.mpr ⟨hq, rfl⟩
  exact (((hinv r.id).stopped a ha hname).late q r hview hlate).groups?

/-- Alice, refused at 15, and a request of hers at 20. -/
theorem cutOff_of_claimsAlone_alice : ∃ w, Reachable World.step
    (fun w a => StatementsSucceed a ∧ AcceptsBefore "alice".toList 5 w a ∧
      ClaimsAlone "alice".toList (5 + 10) w a) (World.init sampleConfig) w ∧
    w.requests.map (·.startedAt) = [14, 20] ∧
    CutOff "alice".toList (5 + 10) w := by
  obtain ⟨w, hw, hstarted⟩ := exists_reachable World.step
    (fun w a => StatementsSucceed a ∧ AcceptsBefore "alice".toList 5 w a ∧
      ClaimsAlone "alice".toList (5 + 10) w a)
    (World.init sampleConfig) (fun w => w.requests.map (·.startedAt) = [14, 20])
    ([sampleLogin, .tick 14] ++ sampleClaim 0 ++
      [.request 0 (.refresh .refused), .request 0 (.revoke true), .tick 6, .start [1],
        .request 1 (.select true)])
    (by decide +kernel)
  have hload : sampleConfig.load = some sampleConfig := by decide +kernel
  exact ⟨w, hw, hstarted, cutOff_of_claimsAlone hload (by decide) _ _ hw⟩

/-- A claim at 14 that is answered late lets a request of 20 in. -/
theorem slow_refusal_lets_in : ∃ w, Reachable World.step
    (fun w a => StatementsSucceed a ∧ AcceptsBefore "alice".toList 5 w a)
    (World.init sampleConfig) w ∧ ¬ CutOff "alice".toList (5 + 10) w := by
  obtain ⟨w, hw, hlate⟩ := exists_reachable World.step
    (fun w a => StatementsSucceed a ∧ AcceptsBefore "alice".toList 5 w a)
    (World.init sampleConfig) (fun w => ¬ CutOff "alice".toList (5 + 10) w)
    ([sampleLogin, .tick 14] ++ sampleClaim 0 ++ [.tick 6] ++ sampleClaim 1) (by decide +kernel)
  exact ⟨w, hw, hlate⟩

end Cuttlefish
