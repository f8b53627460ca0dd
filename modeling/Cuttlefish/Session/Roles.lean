import Cuttlefish.Session.Groups

/-!
# Cuttlefish.Session.Roles

Who gets the role admin, over restarts that switch between the local account
and a provider on one database.

A row does not say how it was signed in, and without a provider every row
counts as the local account's.  `admin_entitled` is what holds as long as no
session of a provider is used there, and no request goes by admin groups the
provider has taken back.
-/

namespace Cuttlefish

/-- One of the groups is an admin group. -/
def AdminGroups (config : AuthConfig) (groups : List Text) : Prop :=
  ∃ g ∈ groups, g ∈ config.oidc.adminGroups

instance (config : AuthConfig) (groups : List Text) : Decidable (AdminGroups config groups) :=
  inferInstanceAs (Decidable (∃ g ∈ groups, _))

/-- The session may get the role admin. -/
def Entitled (w : World) (i : SessionId) : Prop :=
  ∃ a ∈ w.accounts i, (a.origin = .localLogin ∧ w.config.mode = .localAccount) ∨
    (w.config.mode = .oidc ∧ ∃ groups ∈ a.verified.head?, AdminGroups w.config groups)

instance (w : World) (i : SessionId) : Decidable (Entitled w i) :=
  inferInstanceAs (Decidable (∃ a ∈ w.accounts i, _))

/-- No session of a provider is looked up without one.  A row with an admin
group is not looked up while a re-check has groups without one to record, and
no re-check obtains groups without one while another request that goes by one
has still to get its role. -/
def GroupsCurrent (w : World) (a : Action) : Prop :=
  GroupsRecorded w a ∧
    match a with
    | .request pid (.select _) =>
        ∀ r ∈ w.requests[pid]?, ∀ s ∈ w.sessions r.id, w.now < s.expiresAt →
          ∀ acc ∈ w.accounts r.id, acc.origin = .oidcLogin → w.config.mode = .oidc ∧
            (AdminGroups w.config s.groups → ∀ r' ∈ w.others pid,
              ∀ groups ∈ r'.stage.recording?, AdminGroups w.config groups)
    | .request pid (.tokenClaims (some claims)) =>
        AdminGroups w.config (identityFromClaims w.config.oidc claims).groups ∨
          ∀ r ∈ w.others pid, ∀ groups ∈ r.stage.pending?, ¬ AdminGroups w.config groups
    | _ => True

instance (w : World) : DecidablePred (GroupsCurrent w)
  | .request _ (.select _) => inferInstanceAs (Decidable (_ ∧ ∀ r ∈ _, _))
  | .request _ (.tokenClaims (some _)) => inferInstanceAs (Decidable (_ ∧ (_ ∨ _)))
  | .request _ (.tokenClaims none) | .request _ (.claim _) | .request _ (.refresh _)
  | .request _ (.record _) | .request _ (.revoke _) | .request _ (.resolve _)
  | .request _ .cancel | .tick _ | .start _ | .logout _ _ | .login .. | .restart _ =>
      inferInstanceAs (Decidable (_ ∧ True))

/-! ## without a provider -/

/-- A stage of a re-check. -/
def Stage.Rechecks : Stage → Prop
  | .selected .. | .claimed .. | .refreshed .. | .recording .. | .revoking => True
  | _ => False

/-- Without a provider nothing is re-checked, and no session of a provider is
let in. -/
def LocalMode (v : View) : Prop :=
  v.config.mode = .localAccount → v.requests.All fun r => ¬ r.stage.Rechecks ∧
    ∀ acc, v.account = some acc → acc.origin = .oidcLogin → r.stage.pending? = none

theorem Stage.rechecks_of_recording? {stage : Stage} {groups : List Text}
    (h : stage.recording? = some groups) : stage.Rechecks := by
  cases stage <;> trivial

theorem LocalStep.not_rechecks {config : AuthConfig} {now : Int} {l l' : Local}
    {act : RequestAction} (h : LocalStep config now l act l') (hmode : config.mode = .localAccount)
    (hstage : ¬ l.request.stage.Rechecks) : ¬ l'.request.stage.Rechecks := by
  cases h with
  | denied => exact id
  | selectLocal => exact id
  | select _ _ _ hoidc => simp [hmode] at hoidc
  | @resolve _ groups db =>
      rw [Local.goto, resolveRole]
      split_ifs <;> exact id
  | cancel => exact hstage
  | _ hother => exact absurd (by rw [hother]; trivial) hstage

/-! ## sessions of the local account -/

/-- Nothing but the empty group list. -/
def Session.Plain (s : Session) : Prop := s.groups = [] ∧ s.refreshToken = none

def Stage.Plain (stage : Stage) : Prop :=
  ¬ stage.InFlight ∧ ∀ groups, stage.pending? = some groups → groups = []

/-- The local account has no groups, and nobody is asked about it. -/
structure LocalAccount (v : View) : Prop where
  row : ∀ s, v.row = some s → s.Plain
  requests : v.requests.All fun r => r.stage.Plain

theorem LocalStep.plain {config : AuthConfig} {now : Int} {l l' : Local} {act : RequestAction}
    (h : LocalStep config now l act l') (hrow : ∀ s, l.row = some s → s.Plain)
    (hstage : l.request.stage.Plain) :
    (∀ s', l'.row = some s' → s'.Plain) ∧ l'.request.stage.Plain := by
  cases h with
  | denied =>
      refine ⟨hrow, id, fun groups hgroups => ?_⟩
      cases hgroups
  | selectLocal _ hsome | select _ hsome =>
      refine ⟨hrow, id, fun groups hgroups => ?_⟩
      cases hgroups
      exact (hrow _ hsome).1
  | missed hother =>
      refine ⟨hrow, id, fun groups hgroups => hstage.2 groups ?_⟩
      rw [hother]
      exact hgroups
  | tokenless hother hsome =>
      refine ⟨?_, id, fun groups hgroups => hstage.2 groups ?_⟩
      · intro s' hs'
        cases hs'
        have hplain := hrow _ hsome
        exact hplain
      · rw [hother]
        exact hgroups
  | claim _ hsome _ htoken =>
      rw [(hrow _ hsome).2] at htoken
      cases htoken
  | resolve =>
      refine ⟨hrow, ?_⟩
      rw [Local.goto, resolveRole]
      split_ifs
      all_goals
        refine ⟨id, fun groups hgroups => ?_⟩
        cases hgroups
  | cancel => exact ⟨hrow, hstage⟩
  | _ hother => exact absurd (by rw [hother]; trivial) hstage.1

/-! ## sessions of a provider -/

/-- Whoever has still to get a role and goes by admin groups has some among
the groups the provider named last. -/
def Current (v : View) (verified : List (List Text)) : Prop :=
  v.requests.All fun r => ∀ groups, r.stage.pending? = some groups →
    AdminGroups v.config groups → ∃ last ∈ verified.head?, AdminGroups v.config last

theorem Current.request {w : World} {i : SessionId} {pid : Nat} {r : Request}
    {act : RequestAction} {l : Local} {acc acc' : Account} (hacc : (w.view i).account = some acc)
    (hacc' : l.account = some acc') (horigin : acc.origin = .oidcLogin)
    (hv : Current (w.view i) acc.verified) (hstored : Stored (w.view i) acc.verified)
    (hr : (w.view i).requests pid = some r) (hmeets : GroupsCurrent w (.request pid act))
    (h : GroupStep w.config w.now ⟨(w.view i).row, (w.view i).account, r⟩ act l) :
    Current ((w.view i).put pid l) acc'.verified := by
  obtain ⟨hr₀, hid⟩ := World.requests_view.mp hr
  subst hid
  cases h with
  | verified hnew _ _ hheld _ haccount =>
      obtain ⟨a, -, rfl⟩ := Option.map_eq_some_iff.mp (haccount.symm.trans hacc')
      refine Slots.all_set.mpr
        ⟨fun groups hgroups => ?_, fun q r' hr' hq groups hgroups hadmin => ?_⟩
      · have hnone := hheld.symm.trans (Stage.held?_of_pending? hgroups)
        contradiction
      · refine ⟨_, rfl, hmeets.2.elim (fun hnamed => hnew ▸ hnamed) fun hnone => ?_⟩
        exact absurd hadmin ((World.others_iff hr).mpr hnone q r' hr' hq groups hgroups)
  | record hrecording _ hheld _ haccount =>
      cases hacc.symm.trans (haccount.symm.trans hacc')
      refine hv.set fun groups hgroups hadmin => ?_
      cases hheld.symm.trans (Stage.held?_of_pending? hgroups)
      exact ⟨_, hstored.recording pid r hr _ hrecording, hadmin⟩
  | quiet hrecording _ hpending _ haccount =>
      obtain ⟨a, ha, hverified⟩ := haccount acc' hacc'
      cases hacc.symm.trans ha
      rw [hverified]
      refine hv.set fun groups hgroups hadmin => ?_
      cases hpending groups hgroups with
      | inr hold => exact hv pid r hr groups hold hadmin
      | inl hreads =>
          obtain ⟨s, db, rfl, hs, hlive, rfl⟩ := hreads
          have hidle := hrecording.symm.trans
            (Stage.recording?_of_held? (Stage.held?_of_pending? hgroups))
          obtain ⟨-, hrecords⟩ := hmeets.2 r hr₀ s hs hlive acc hacc horigin
          by_cases hnone : (w.view r.id).requests.Others pid fun r' => r'.stage.recording? = none
          · exact ⟨s.groups, hstored.head hr hidle hnone hs, hadmin⟩
          · -- the groups still to be recorded are the last
            simp only [Slots.Others, not_forall] at hnone
            obtain ⟨q, r', hr', hq, hne⟩ := hnone
            obtain ⟨last, hlast⟩ := Option.ne_none_iff_exists'.mp hne
            have hadmins := (World.others_iff hr).mpr (hrecords hadmin) q r' hr' hq last hlast
            exact ⟨last, hstored.recording q r' hr' last hlast, hadmins⟩

/-! ## every move -/

/-- The invariant of one session. -/
structure Roles (v : View) : Prop where
  unissued : v.Unissued
  localMode : LocalMode v
  localAccount : ∀ acc, v.account = some acc → acc.origin = .localLogin → LocalAccount v
  stored : StoredGroups v
  current : ∀ acc, v.account = some acc → acc.origin = .oidcLogin → Current v acc.verified

theorem Stage.Outside.pending? {stage : Stage} (h : stage.Outside) : stage.pending? = none := by
  cases stage <;> first | rfl | exact h.elim

theorem Stage.Outside.not_rechecks {stage : Stage} (h : stage.Outside) : ¬ stage.Rechecks := by
  cases stage <;> first | exact id | exact h.elim

theorem Stage.Outside.plain {stage : Stage} (h : stage.Outside) : stage.Plain := by
  refine ⟨h.not_inFlight, fun groups hgroups => ?_⟩
  rw [h.pending?] at hgroups
  contradiction

/-- Without a provider no session of one is let in. -/
theorem LocalStep.not_pending {config : AuthConfig} {now : Int} {l l' : Local}
    {act : RequestAction} (h : LocalStep config now l act l')
    (hidle : ¬ l.request.stage.Rechecks) (hpending : l.request.stage.pending? = none)
    (hread : ∀ groups, ¬ l.Reads now act groups) : l'.request.stage.pending? = none := by
  cases hnew : l'.request.stage.pending? with
  | none => rfl
  | some groups =>
      cases h.groups with
      | verified _ _ _ hheld =>
          cases hheld.symm.trans (Stage.held?_of_pending? hnew)
      | record hrecording => exact absurd (Stage.rechecks_of_recording? hrecording) hidle
      | quiet _ _ hold =>
          cases hold groups hnew with
          | inl hreads => exact absurd hreads (hread groups)
          | inr hold => rw [hpending] at hold; contradiction

theorem Roles.localMode_move {w : World} {i : SessionId} {a : Action} {v' : View}
    (hv : Roles (w.view i)) (hmeets : GroupsCurrent w a) (h : ViewStep i (w.view i) a v') :
    LocalMode v' := by
  intro hmode
  cases h with
  | elsewhere => exact hv.localMode hmode
  | start => exact (hv.localMode hmode).set ⟨id, fun _ _ _ => rfl⟩
  | @request pid r act l hr hlocal =>
      have hold := hv.localMode hmode
      obtain ⟨hidle, hpending⟩ := hold pid r hr
      obtain ⟨hr₀, hid⟩ := World.requests_view.mp hr
      subst hid
      have haccount : ∀ acc, l.account = some acc → acc.origin = .oidcLogin →
          ∃ a₀, (w.view r.id).account = some a₀ ∧ a₀.origin = .oidcLogin := by
        intro acc hacc horigin
        obtain ⟨a₀, ha₀, -, hsame⟩ := hlocal.account_cases hacc
        exact ⟨a₀, ha₀, hsame ▸ horigin⟩
      refine Slots.all_set.mpr ⟨⟨hlocal.not_rechecks hmode hidle, fun acc hacc horigin => ?_⟩,
        fun q r' hr' _ => ⟨(hold q r' hr').1, fun acc hacc horigin => ?_⟩⟩
      · obtain ⟨a₀, ha₀, horigin₀⟩ := haccount acc hacc horigin
        refine hlocal.not_pending hidle (hpending a₀ ha₀ horigin₀) ?_
        rintro groups ⟨s, db, rfl, hs, hlive, -⟩
        have hoidc := (hmeets.2 r hr₀ s hs hlive a₀ ha₀ horigin₀).1
        cases hmode.symm.trans hoidc
      · obtain ⟨a₀, ha₀, horigin₀⟩ := haccount acc hacc horigin
        exact (hold q r' hr').2 a₀ ha₀ horigin₀
  | removed => exact hv.localMode hmode
  | login hlogin hnone =>
      refine (hv.unissued hnone).2.imp fun r hunserved => ⟨hunserved.1.not_rechecks, ?_⟩
      exact fun acc hacc horigin => hunserved.1.pending?
  | restart => exact Slots.all_empty

theorem Roles.localAccount_move {w : World} {i : SessionId} {a : Action} {v' : View}
    (hv : Roles (w.view i)) (h : ViewStep i (w.view i) a v') {acc : Account}
    (hacc : v'.account = some acc) (horigin : acc.origin = .localLogin) : LocalAccount v' := by
  cases h with
  | elsewhere =>
      obtain ⟨hrow, hrequests⟩ := hv.localAccount acc hacc horigin
      exact ⟨hrow, hrequests⟩
  | start =>
      obtain ⟨hrow, hrequests⟩ := hv.localAccount acc hacc horigin
      exact ⟨hrow, hrequests.set (Stage.Outside.plain trivial)⟩
  | @request pid r act l hr hlocal =>
      obtain ⟨a₀, ha₀, -, hsame⟩ := hlocal.account_cases hacc
      obtain ⟨hrow, hrequests⟩ := hv.localAccount a₀ ha₀ (hsame ▸ horigin)
      obtain ⟨hrow', hself⟩ := hlocal.plain hrow (hrequests pid r hr)
      exact ⟨hrow', hrequests.set hself⟩
  | removed => exact ⟨nofun, (hv.localAccount acc hacc horigin).requests⟩
  | login hlogin hnone =>
      have hunserved := (hv.unissued hnone).2
      cases hacc
      rcases authenticate_cases hlogin with ⟨-, user, rfl⟩ | ⟨-, claims, token, -, rfl⟩
      · refine ⟨fun s hs => ?_, hunserved.imp fun r hr => hr.1.plain⟩
        cases hs
        exact ⟨rfl, rfl⟩
      · contradiction
  | restart => exact ⟨(hv.localAccount acc hacc horigin).row, Slots.all_empty⟩

theorem Roles.current_move {w : World} {i : SessionId} {a : Action} {v' : View}
    (hv : Roles (w.view i)) (hmeets : GroupsCurrent w a) (h : ViewStep i (w.view i) a v')
    {acc : Account} (hacc : v'.account = some acc) (horigin : acc.origin = .oidcLogin) :
    Current v' acc.verified := by
  cases h with
  | elsewhere => exact hv.current acc hacc horigin
  | start =>
      refine (hv.current acc hacc horigin).set fun groups hgroups => ?_
      contradiction
  | request hr hlocal =>
      obtain ⟨a₀, ha₀, -, hsame⟩ := hlocal.account_cases hacc
      have horigin₀ : a₀.origin = .oidcLogin := hsame ▸ horigin
      exact Current.request ha₀ hacc horigin₀ (hv.current a₀ ha₀ horigin₀)
        (hv.stored a₀ ha₀ horigin₀) hr hmeets hlocal.groups
  | removed => exact hv.current acc hacc horigin
  | login _ hnone =>
      refine (hv.unissued hnone).2.imp fun r hunserved groups hgroups => ?_
      rw [hunserved.1.pending?] at hgroups
      contradiction
  | restart => exact Slots.all_empty

theorem roles_of_reachable {config : AuthConfig} {w : World}
    (h : Reachable World.step GroupsCurrent (World.init config) w) (i : SessionId) :
    Roles (w.view i) := by
  refine h.invariant (fun w => ∀ i, Roles (w.view i)) ?_ ?_ i
  · intro i
    have hnobody : ∀ {P}, ((World.init config).view i).requests.All P :=
      World.all_of_requests (by simp [World.init]) i
    refine ⟨fun _ => ⟨rfl, hnobody⟩, fun _ => hnobody, fun acc hacc => ?_, ?_, fun acc hacc => ?_⟩
    · cases hacc
    · intro acc hacc
      cases hacc
    · cases hacc
  · intro w a w' _ hw hmeets hstep i
    have hmove := World.step_view hstep i
    exact ⟨hmove.unissued (hw i).unissued, (hw i).localMode_move hmeets hmove,
      fun acc hacc horigin => (hw i).localAccount_move hmove hacc horigin,
      (hw i).stored.move (hw i).unissued hmeets.1 hmove,
      fun acc hacc horigin => (hw i).current_move hmeets hmove hacc horigin⟩

/-! ## the role -/

/-- A request that gets the role admin goes by admin groups, or without a
provider. -/
theorem roleFor_eq_admin {config : AuthConfig} {groups : List Text}
    (h : roleFor config groups = .admin) :
    config.mode = .localAccount ∨
      config.mode = .oidc ∧ AdminGroups config groups := by
  rw [roleFor] at h
  split_ifs at h with hmode hadmin
  · exact Or.inl hmode
  · refine Or.inr ⟨?_, by simpa [AdminGroups] using hadmin⟩
    cases hoidc : config.mode with
    | localAccount => exact absurd hoidc hmode
    | oidc => rfl

/-- Where a role comes from. -/
theorem World.step_resolve {w w' : World} {pid : Nat} {db : Bool} {r : Request}
    (hstep : w.step (.request pid (.resolve db)) = some w') (hr : w'.requests[pid]? = some r) :
    ∃ r₀ user groups, w.requests[pid]? = some r₀ ∧ r₀.id = r.id ∧
      r₀.stage = .authorized user groups ∧ r.stage = resolveRole w.config db groups := by
  simp only [World.step] at hstep
  cases hr₀ : w.requests[pid]? with
  | none => simp [hr₀] at hstep
  | some r₀ =>
      rw [hr₀] at hstep
      obtain ⟨l, hl, rfl⟩ := Option.map_eq_some_iff.mp hstep
      have hlt : pid < w.requests.length := (List.getElem?_eq_some_iff.mp hr₀).1
      have heq : l.request = r := by simpa [World.put, hlt] using hr
      cases hstage : r₀.stage <;> simp only [Local.next, hstage, reduceCtorEq] at hl
      cases hl
      exact ⟨r₀, _, _, rfl, by rw [← heq]; rfl, hstage, by rw [← heq]; rfl⟩

/-- **Admins are entitled**, in every run in which groups are current. -/
theorem admin_entitled {config : AuthConfig} {w w' : World} {pid : Nat} {db : Bool} {r : Request}
    {groups : List Text} (h : Reachable World.step GroupsCurrent (World.init config) w)
    (hstep : w.step (.request pid (.resolve db)) = some w') (hr : w'.requests[pid]? = some r)
    (hadmin : r.stage = .resolved groups .admin) : Entitled w r.id := by
  obtain ⟨r₀, user, groups₀, hr₀, hid, hstage, hrole⟩ := World.step_resolve hstep hr
  have hroles := roles_of_reachable h r.id
  have hview : (w.view r.id).requests pid = some r₀ := World.requests_view.mpr ⟨hr₀, hid⟩
  have hpending : r₀.stage.pending? = some groups₀ := by rw [hstage]; rfl
  have hadmin : roleFor w.config groups₀ = .admin := by
    rw [hrole, resolveRole] at hadmin
    split_ifs at hadmin
    exact (Stage.resolved.inj hadmin).2
  cases hacc : w.accounts r.id with
  | none =>
      rw [((hroles.unissued hacc).2 pid r₀ hview).1.pending?] at hpending
      contradiction
  | some acc =>
      refine ⟨acc, hacc, ?_⟩
      rcases roleFor_eq_admin hadmin with hmode | ⟨hmode, hadmins⟩
      · cases horigin : acc.origin with
        | localLogin => exact Or.inl ⟨rfl, hmode⟩
        | oidcLogin =>
            have hnone := (hroles.localMode hmode pid r₀ hview).2 acc hacc horigin
            cases hnone.symm.trans hpending
      · cases horigin : acc.origin with
        | localLogin =>
            have hplain := (hroles.localAccount acc hacc horigin).requests pid r₀ hview
            have hnil := hplain.2 groups₀ hpending
            obtain ⟨g, hg, -⟩ := hadmins
            rw [hnil] at hg
            cases hg
        | oidcLogin =>
            exact Or.inr ⟨hmode,
              hroles.current acc hacc horigin pid r₀ hview groups₀ hpending hadmins⟩

/-- The local account in place of the provider. -/
def sampleLocal : AuthConfig where
  localUsername := "root".toList
  localPassword := "secret".toList

/-- Resolving the first request, one of session `[1]`, takes it to `stage`. -/
def resolvesTo (stage : Stage) (w : World) : Prop :=
  ∃ w' ∈ w.step (.request 0 (.resolve true)), ∃ r ∈ w'.requests[0]?, r.id = [1] ∧ r.stage = stage

instance (stage : Stage) (w : World) : Decidable (resolvesTo stage w) :=
  inferInstanceAs (Decidable (∃ w' ∈ w.step _, _))

/-- Alice is re-checked, and is an admin still. -/
theorem admin_entitled_alice : ∃ w w' r,
    Reachable World.step GroupsCurrent (World.init sampleConfig) w ∧
      w.step (.request 0 (.resolve true)) = some w' ∧ w'.requests[0]? = some r ∧
      r.stage = .resolved ["admins".toList] .admin ∧ Entitled w r.id := by
  obtain ⟨w, hw, hresolves⟩ := exists_reachable World.step GroupsCurrent
    (World.init sampleConfig) (fun w => resolvesTo (.resolved ["admins".toList] .admin) w)
    ([sampleLogin, .tick 14] ++ sampleClaim 0 ++
      [.request 0 (.refresh (.issued "r1".toList true)),
        .request 0 (.tokenClaims (some (sampleClaims "admins"))), .request 0 (.record true)])
    (by decide +kernel)
  obtain ⟨w', hstep, r, hr, -, hstage⟩ := hresolves
  exact ⟨w, w', r, hw, hstep, hr, hstage, admin_entitled hw hstep hr hstage⟩

/-- After a restart without the provider, an ordinary session of the provider
is admin. -/
theorem restart_makes_admin : ∃ w w' r,
    Reachable World.step (fun _ _ => True) (World.init sampleConfig) w ∧
      w.step (.request 0 (.resolve true)) = some w' ∧ w'.requests[0]? = some r ∧
      r.stage = .resolved ["staff".toList] .admin ∧ ¬ Entitled w r.id := by
  obtain ⟨w, hw, hboth⟩ := exists_reachable World.step (fun _ _ => True)
    (World.init sampleConfig)
    (fun w => resolvesTo (.resolved ["staff".toList] .admin) w ∧ ¬ Entitled w [1])
    [.login [1] (.code (sampleClaims "staff") "r0".toList) true true, .restart sampleLocal,
      .start [1], .request 0 (.select true)]
    (by decide +kernel)
  obtain ⟨⟨w', hstep, r, hr, hid, hstage⟩, hnot⟩ := hboth
  exact ⟨w, w', r, hw, hstep, hr, hstage, hid ▸ hnot⟩

end Cuttlefish
