import Cuttlefish.Session.Move

/-!
# Cuttlefish.Session.Groups

The way of a session's groups: from the provider through a re-check into the
row, and from the row into the requests that read it.

`LocalStep.groups` sorts the steps of a request by what they do to groups,
and `Stored` is the state of the row between two re-checks.
-/

namespace Cuttlefish

/-! ## steps that move groups -/

/-- The groups a re-check has obtained and not recorded. -/
def Stage.recording? : Stage → Option (List Text)
  | .recording _ groups _ => some groups
  | _ => none

/-- The groups a request is to get its role by. -/
def Stage.pending? : Stage → Option (List Text)
  | .selected _ groups | .authorized _ groups => some groups
  | _ => none

/-- The groups a request goes by. -/
def Stage.held? : Stage → Option (List Text)
  | .selected _ groups => some groups
  | stage => stage.groups?

/-- The step finds the groups in a live row. -/
def Local.Reads (l : Local) (now : Int) (act : RequestAction) (groups : List Text) : Prop :=
  ∃ s db, act = .select db ∧ l.row = some s ∧ now < s.expiresAt ∧ s.groups = groups

/-- What a step of a request does to groups. -/
inductive GroupStep (config : AuthConfig) (now : Int) (l : Local) : RequestAction → Local → Prop
  /-- The provider has named new groups. -/
  | verified {l' : Local} {claims : Claims} {groups : List Text}
      (hgroups : groups = (identityFromClaims config.oidc claims).groups)
      (hidle : l.request.stage.recording? = none)
      (hrecording : l'.request.stage.recording? = some groups)
      (hheld : l'.request.stage.held? = none) (hrow : l'.row = l.row)
      (haccount : l'.account = l.account.map (Account.verify · groups)) :
      GroupStep config now l (.tokenClaims (some claims)) l'
  /-- They go into the row. -/
  | record {l' : Local} {db : Bool} {groups : List Text}
      (hrecording : l.request.stage.recording? = some groups)
      (hidle : l'.request.stage.recording? = none)
      (hheld : l'.request.stage.held? = some groups)
      (hrow : ∀ s', l'.row = some s' → db = true → s'.groups = groups)
      (haccount : l'.account = l.account) : GroupStep config now l (.record db) l'
  /-- Everything else at most reads them. -/
  | quiet {act : RequestAction} {l' : Local}
      (hrecording : l'.request.stage.recording? = l.request.stage.recording?)
      (hheld : ∀ groups, l'.request.stage.held? = some groups →
        l.Reads now act groups ∨ l.request.stage.held? = some groups)
      (hpending : ∀ groups, l'.request.stage.pending? = some groups →
        l.Reads now act groups ∨ l.request.stage.pending? = some groups)
      (hrow : ∀ s', l'.row = some s' → ∃ s, l.row = some s ∧ s'.groups = s.groups)
      (haccount : ∀ a', l'.account = some a' →
        ∃ a, l.account = some a ∧ a'.verified = a.verified) : GroupStep config now l act l'

theorem Stage.held?_of_pending? {stage : Stage} {groups : List Text}
    (h : stage.pending? = some groups) : stage.held? = some groups := by
  cases stage <;> first | exact h | cases h

theorem Stage.recording?_of_held? {stage : Stage} {groups : List Text}
    (h : stage.held? = some groups) : stage.recording? = none := by
  cases stage <;> first | rfl | cases h

theorem Stage.Outside.held? {stage : Stage} (h : stage.Outside) : stage.held? = none := by
  cases stage <;> first | rfl | exact h.elim

theorem Stage.Outside.recording? {stage : Stage} (h : stage.Outside) :
    stage.recording? = none := by
  cases stage <;> first | rfl | exact h.elim

theorem Stage.recording?_of_idle {stage : Stage} (h : ¬ stage.InFlight) :
    stage.recording? = none := by
  cases stage <;> first | rfl | exact (h trivial).elim

/-- A step that ends without groups to go by. -/
theorem GroupStep.silent {config : AuthConfig} {now : Int} {l l' : Local} {act : RequestAction}
    (hrecording : l'.request.stage.recording? = l.request.stage.recording?)
    (hheld : l'.request.stage.held? = none)
    (hrow : ∀ s', l'.row = some s' → ∃ s, l.row = some s ∧ s'.groups = s.groups)
    (haccount : ∀ a', l'.account = some a' →
      ∃ a, l.account = some a ∧ a'.verified = a.verified) : GroupStep config now l act l' := by
  have hnone : ∀ groups, l'.request.stage.held? ≠ some groups := by simp [hheld]
  refine .quiet hrecording (fun groups h => ?_) (fun groups h => ?_) hrow haccount
  · exact absurd h (hnone groups)
  · exact absurd (Stage.held?_of_pending? h) (hnone groups)

@[simp] theorem RefreshReply.book_verified (reply : RefreshReply) (token : Text) (a : Account) :
    (reply.book token a).verified = a.verified := by
  cases reply <;> rfl

theorem resolveRole_groups (config : AuthConfig) (db : Bool) (groups : List Text) :
    (resolveRole config db groups).recording? = none ∧
      (resolveRole config db groups).held? = some groups ∧
      (resolveRole config db groups).pending? = none := by
  rw [resolveRole]
  split_ifs <;> exact ⟨rfl, rfl, rfl⟩

theorem LocalStep.groups {config : AuthConfig} {now : Int} {l l' : Local} {act : RequestAction}
    (h : LocalStep config now l act l') : GroupStep config now l act l' := by
  have hrow : ∀ s', l.row = some s' → ∃ s, l.row = some s ∧ s'.groups = s.groups :=
    fun s hs => ⟨s, hs, rfl⟩
  have haccount : ∀ a', l.account = some a' → ∃ a, l.account = some a ∧ a'.verified = a.verified :=
    fun a ha => ⟨a, ha, rfl⟩
  cases h with
  | denied hstage =>
      exact .silent (Stage.recording?_of_idle hstage).symm rfl hrow haccount
  | selectLocal hstage hsome hlive | select hstage hsome hlive =>
      have hreads : ∀ groups, some _ = some groups → l.Reads now (.select true) groups :=
        fun groups hheld => ⟨_, _, rfl, hsome, hlive, Option.some.inj hheld⟩
      exact .quiet (by rw [hstage]; rfl) (fun groups h => Or.inl (hreads groups h))
        (fun groups h => Or.inl (hreads groups h)) hrow haccount
  | missed hstage =>
      refine .quiet (by rw [hstage]; rfl) ?_ ?_ hrow haccount <;>
        exact fun groups hheld => Or.inr (by rw [hstage]; exact hheld)
  | tokenless hstage hsome =>
      refine .quiet (by rw [hstage]; rfl) ?_ ?_ ?_ haccount
      · exact fun groups hheld => Or.inr (by rw [hstage]; exact hheld)
      · exact fun groups hheld => Or.inr (by rw [hstage]; exact hheld)
      · intro s' hs'
        cases hs'
        exact ⟨_, hsome, rfl⟩
  | claim hstage hsome =>
      refine .silent (by rw [hstage]; rfl) rfl (fun s' hs' => ?_) haccount
      cases hs'
      exact ⟨_, hsome, rfl⟩
  | refused hstage =>
      refine .silent (by rw [hstage]; rfl) rfl hrow fun a' ha' => ?_
      simp only [Local.conclude, Local.goto, Local.book, Option.map_map,
        Option.map_eq_some_iff] at ha'
      obtain ⟨a, ha, rfl⟩ := ha'
      exact ⟨a, ha, RefreshReply.book_verified _ _ a⟩
  | refreshed hstage =>
      refine .silent (by rw [hstage]; rfl) rfl hrow fun a' ha' => ?_
      obtain ⟨a, ha, rfl⟩ := Option.map_eq_some_iff.mp ha'
      exact ⟨a, ha, RefreshReply.book_verified _ _ a⟩
  | disclaimed hstage =>
      refine .silent (by rw [hstage]; rfl) rfl hrow fun a' ha' => ?_
      obtain ⟨a, ha, rfl⟩ := Option.map_eq_some_iff.mp ha'
      exact ⟨a, ha, rfl⟩
  | verified hstage => exact .verified rfl (by rw [hstage]; rfl) rfl rfl rfl rfl
  | record hstage =>
      refine .record (by rw [hstage]; rfl) rfl rfl (fun s' hs' hdb => ?_) rfl
      subst hdb
      obtain ⟨s, -, rfl⟩ := Option.map_eq_some_iff.mp hs'
      rfl
  | @revoke db hstage =>
      refine .silent (by rw [hstage]; rfl) rfl (fun s' hs' => ?_) haccount
      cases db with
      | false => exact ⟨s', hs', rfl⟩
      | true => cases hs'
  | @resolve _ groups db hstage =>
      -- the role is given by the groups held, and nothing is pending then
      obtain ⟨hrecording, hheld, hpending⟩ := resolveRole_groups config db groups
      refine .quiet ?_ (fun g hg => ?_) (fun g hg => ?_) hrow haccount
      · rw [hstage]
        exact hrecording
      · rw [hstage]
        exact Or.inr (hheld.symm.trans hg)
      · cases hpending.symm.trans hg
  | cancel =>
      exact .quiet rfl (fun groups hheld => Or.inr hheld) (fun groups hheld => Or.inr hheld)
        hrow haccount

/-! ## what the row holds -/

/-- What a re-check obtains is recorded, and before another obtains more. -/
def GroupsRecorded (w : World) : Action → Prop
  | .request pid (.tokenClaims _) => ∀ r ∈ w.others pid, r.stage.recording? = none
  | .request _ (.record db) => db = true
  | .restart _ => ∀ r ∈ w.requests, r.stage.recording? = none
  | _ => True

instance (w : World) : DecidablePred (GroupsRecorded w)
  | .request _ (.tokenClaims _) | .restart _ => inferInstanceAs (Decidable (∀ r ∈ _, _))
  | .request _ (.record _) => inferInstanceAs (Decidable (_ = true))
  | .request _ (.select _) | .request _ (.claim _) | .request _ (.refresh _)
  | .request _ (.revoke _) | .request _ (.resolve _) | .request _ .cancel | .tick _ | .start _
  | .logout _ _ | .login .. => isTrue trivial

/-- The row holds the groups the provider named last, or those before as long
as a re-check has still to record the last. -/
structure Stored (v : View) (verified : List (List Text)) : Prop where
  recent : ∀ s, v.row = some s → s.groups ∈ verified.take 2
  row : ∀ s, v.row = some s → (v.requests.All fun r => r.stage.recording? = none) →
    verified.head? = some s.groups
  recording : v.requests.All fun r => ∀ groups, r.stage.recording? = some groups →
    verified.head? = some groups
  single : v.requests.AtMostOne fun r => r.stage.recording? ≠ none

theorem mem_take_two_of_head {verified : List (List Text)} {groups : List Text}
    (h : verified.head? = some groups) : groups ∈ verified.take 2 := by
  obtain ⟨rest, rfl⟩ := List.head?_eq_some_iff.mp h
  simp

section Request

variable {v : View} {pid : Nat} {r : Request} {l : Local} {groups : List Text}
  {verified : List (List Text)}

theorem Stored.head (hv : Stored v verified) (hr : v.requests pid = some r)
    (hidle : r.stage.recording? = none)
    (hothers : v.requests.Others pid fun r => r.stage.recording? = none) {s : Session}
    (hs : v.row = some s) : verified.head? = some s.groups :=
  hv.row s hs ((Slots.all_iff hr).mpr ⟨hidle, hothers⟩)

theorem Stored.verify (hv : Stored v verified) (hr : v.requests pid = some r)
    (hidle : r.stage.recording? = none)
    (hothers : v.requests.Others pid fun r => r.stage.recording? = none)
    (hrecording : l.request.stage.recording? = some groups) (hrow : l.row = v.row) :
    Stored (v.put pid l) (groups :: verified) where
  recent s hs := by
    have hhead := hv.head hr hidle hothers (hrow.symm.trans hs)
    obtain ⟨rest, rfl⟩ := List.head?_eq_some_iff.mp hhead
    simp
  row s _ hall := by
    have hnone := (Slots.all_set.mp hall).1
    rw [hrecording] at hnone
    contradiction
  recording := by
    refine Slots.all_set.mpr ⟨fun g hg => ?_, hothers.imp fun r' hnone g hg => ?_⟩
    · exact hrecording.symm.trans hg
    · rw [hnone] at hg
      contradiction
  single := Slots.Others.atMostOne_set (hothers.imp fun r' hnone => not_not.mpr hnone)

theorem Stored.record (hv : Stored v verified) (hr : v.requests pid = some r)
    (hrecording : r.stage.recording? = some groups) (hidle : l.request.stage.recording? = none)
    (hrow : ∀ s', l.row = some s' → s'.groups = groups) : Stored (v.put pid l) verified := by
  have hhead : verified.head? = some groups := hv.recording pid r hr groups hrecording
  refine ⟨fun s hs => ?_, fun s hs _ => ?_, hv.recording.set fun g hg => ?_,
    hv.single.set_of_not (not_not.mpr hidle)⟩
  · rw [hrow s hs]
    exact mem_take_two_of_head hhead
  · rw [hrow s hs]
    exact hhead
  · rw [hidle] at hg
    contradiction

theorem Stored.quiet (hv : Stored v verified) (hr : v.requests pid = some r)
    (hrecording : l.request.stage.recording? = r.stage.recording?)
    (hrow : ∀ s', l.row = some s' → ∃ s, v.row = some s ∧ s'.groups = s.groups) :
    Stored (v.put pid l) verified := by
  refine ⟨fun s' hs' => ?_, fun s' hs' hall => ?_, hv.recording.set ?_, hv.single.set hr ?_⟩
  · obtain ⟨s, hs, hsame⟩ := hrow s' hs'
    rw [hsame]
    exact hv.recent s hs
  · obtain ⟨s, hs, hsame⟩ := hrow s' hs'
    obtain ⟨hself, hothers⟩ := Slots.all_set.mp hall
    rw [hsame]
    exact hv.head hr (hrecording.symm.trans hself) hothers hs
  · rw [hrecording]
    exact hv.recording pid r hr
  · rw [hrecording]
    exact id

end Request

/-- The row of a session the provider vouched for. -/
def StoredGroups (v : View) : Prop :=
  ∀ a, v.account = some a → a.origin = .oidcLogin → Stored v a.verified

theorem StoredGroups.move {w : World} {i : SessionId} {a : Action} {v' : View}
    (hv : StoredGroups (w.view i)) (hnew : (w.view i).Unissued) (hmeets : GroupsRecorded w a)
    (h : ViewStep i (w.view i) a v') : StoredGroups v' := by
  intro acc hacc horigin
  cases h with
  | elsewhere =>
      obtain ⟨hrecent, hrow, hrecording, hsingle⟩ := hv acc hacc horigin
      exact ⟨hrecent, hrow, hrecording, hsingle⟩
  | start hnone =>
      obtain ⟨hrecent, hrow, hrecording, hsingle⟩ := hv acc hacc horigin
      have hidle : (newRequest (w.view i).now i (w.view i).account).stage.recording? = none := rfl
      refine ⟨hrecent, fun s hs hall => hrow s hs ?_, hrecording.set fun g hg => ?_,
        hsingle.set_of_not (not_not.mpr hidle)⟩
      · exact (Slots.others_of_none hnone).mp (Slots.all_set.mp hall).2
      · rw [hidle] at hg
        contradiction
  | @request pid r act l hr hlocal =>
      obtain ⟨a₀, ha₀, -, hsame⟩ := hlocal.account_cases hacc
      have hstored := hv a₀ ha₀ (hsame ▸ horigin)
      cases hlocal.groups with
      | verified _ hidle hrecording _ hrow haccount =>
          obtain ⟨a₁, ha₁, rfl⟩ := Option.map_eq_some_iff.mp (haccount.symm.trans hacc)
          cases ha₀.symm.trans ha₁
          exact hstored.verify hr hidle ((World.others_iff hr).mpr hmeets) hrecording hrow
      | record hrecording hidle _ hrow haccount =>
          cases ha₀.symm.trans (haccount.symm.trans hacc)
          exact hstored.record hr hrecording hidle fun s' hs' => hrow s' hs' hmeets
      | quiet hrecording _ _ hrow haccount =>
          obtain ⟨a₁, ha₁, hverified⟩ := haccount acc hacc
          cases ha₀.symm.trans ha₁
          rw [hverified]
          exact hstored.quiet hr hrecording hrow
  | removed =>
      obtain ⟨-, -, hrecording, hsingle⟩ := hv acc hacc horigin
      exact ⟨nofun, nofun, hrecording, hsingle⟩
  | login hlogin hnone =>
      have hidle := (hnew hnone).2.imp fun _ hunserved => hunserved.1.recording?
      cases hacc
      rcases authenticate_cases hlogin with ⟨-, user, rfl⟩ | ⟨-, claims, token, -, rfl⟩
      · contradiction
      · refine ⟨fun s hs => ?_, fun s hs _ => ?_, hidle.imp fun r hnone g hg => ?_,
          Slots.atMostOne_of_all (hidle.imp fun r hnone => not_not.mpr hnone)⟩
        · cases hs
          exact mem_take_two_of_head rfl
        · cases hs
          rfl
        · rw [hnone] at hg
          contradiction
  | restart =>
      obtain ⟨hrecent, hrow, -, -⟩ := hv acc hacc horigin
      refine ⟨hrecent, fun s hs _ => hrow s hs ?_, Slots.all_empty,
        Slots.atMostOne_of_all Slots.all_empty⟩
      exact World.all_of_requests hmeets i

end Cuttlefish
