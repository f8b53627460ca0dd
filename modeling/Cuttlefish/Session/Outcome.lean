import Cuttlefish.Session.Groups

/-!
# Cuttlefish.Session.Outcome

What a re-check comes to, in a system where any statement may fail: requests
that start after a revocation are turned away, and requests that start after
new groups were obtained do not go by the old ones.

The outcome lives in one DELETE or UPDATE, so this takes that the statement
succeeds, and before the next request of the session.
-/

namespace Cuttlefish

/-- The groups named after the first `mark`, and the last of those. -/
def since (verified : List (List Text)) (mark : Nat) : List (List Text) :=
  verified.take (verified.length - mark + 1)

/-- What was concluded before a request started is heeded by it. -/
def OutcomesHeeded (w : World) : Prop :=
  ∀ r ∈ w.requests, ∀ a ∈ w.accounts r.id, a.origin = .oidcLogin →
    (r.revokedAtStart = true → r.stage.groups? = none) ∧
      ∀ groups ∈ r.stage.groups?, groups ∈ since a.verified r.verifiedAtStart

instance (w : World) : Decidable (OutcomesHeeded w) :=
  inferInstanceAs (Decidable (∀ r ∈ w.requests, _))

/-- The final statement of a re-check succeeds, re-checks do not overlap
there, and no request that starts after a conclusion looks its row up before
the statement. -/
def OutcomesWritten (w : World) (a : Action) : Prop :=
  GroupsRecorded w a ∧
    match a with
    | .request pid (.select _) =>
        ∀ r ∈ w.requests[pid]?, ∀ acc ∈ w.accounts r.id,
          (r.revokedAtStart = true → ∀ r' ∈ w.others pid, r'.stage ≠ .revoking) ∧
            (r.verifiedAtStart = acc.verified.length →
              ∀ r' ∈ w.others pid, r'.stage.recording? = none)
    | .request _ (.revoke db) => db = true
    | .restart _ => ∀ r ∈ w.requests, r.stage ≠ .revoking
    | _ => True

instance (w : World) : DecidablePred (OutcomesWritten w)
  | .request _ (.select _) | .restart _ => inferInstanceAs (Decidable (_ ∧ ∀ r ∈ _, _))
  | .request _ (.revoke _) => inferInstanceAs (Decidable (_ ∧ _ = true))
  | .request _ (.claim _) | .request _ (.refresh _) | .request _ (.tokenClaims _)
  | .request _ (.record _) | .request _ (.resolve _) | .request _ .cancel | .tick _ | .start _
  | .logout _ _ | .login .. => inferInstanceAs (Decidable (_ ∧ True))

/-! ## revocations -/

/-- There is no row, or its DELETE is under way. -/
def Leaving (v : View) : Prop := v.row = none ∨ v.requests.Any fun r => r.stage = .revoking

/-- A revoked session leaves, and requests that start then are not let in. -/
structure Revocation (v : View) (a : Account) : Prop where
  leaving : a.revoked = true → Leaving v
  turnedAway : v.requests.All fun r => r.revokedAtStart = true → Leaving v ∧ r.stage.Outside

section Request

variable {config : AuthConfig} {now : Int} {l l' : Local} {act : RequestAction}

/-- Only a conclusion marks an account. -/
theorem LocalStep.revoked (h : LocalStep config now l act l') {a' : Account}
    (ha' : l'.account = some a') :
    ∃ a, l.account = some a ∧ (a'.revoked = true → a.revoked = true ∨
      l'.request.stage = .revoking) := by
  cases h
  case refreshed reply _ _ =>
    obtain ⟨a, ha, rfl⟩ := Option.map_eq_some_iff.mp ha'
    exact ⟨a, ha, Or.inl⟩
  case verified =>
    obtain ⟨a, ha, rfl⟩ := Option.map_eq_some_iff.mp ha'
    exact ⟨a, ha, Or.inl⟩
  case refused =>
    simp only [Local.conclude, Local.goto, Local.book, Option.map_map,
      Option.map_eq_some_iff] at ha'
    obtain ⟨a, ha, rfl⟩ := ha'
    exact ⟨a, ha, fun _ => Or.inr rfl⟩
  case disclaimed =>
    obtain ⟨a, ha, rfl⟩ := Option.map_eq_some_iff.mp ha'
    exact ⟨a, ha, fun _ => Or.inr rfl⟩
  all_goals exact ⟨a', ha', Or.inl⟩

/-- A revocation ends with its DELETE. -/
theorem LocalStep.revoking (h : LocalStep config now l act l')
    (hstage : l.request.stage = .revoking) (hdb : ∀ db, act = .revoke db → db = true) :
    l'.request.stage = .revoking ∨ l'.row = none := by
  cases h with
  | denied hidle => exact absurd (by rw [hstage]; trivial) hidle
  | revoke => exact Or.inr (if_pos (hdb _ rfl))
  | cancel => exact Or.inl hstage
  | _ hother => simp [hstage] at hother

end Request

section Move

variable {w : World} {i : SessionId} {pid : Nat} {r : Request} {act : RequestAction} {l : Local}

theorem Leaving.request {v : View} (hv : Leaving v) (hr : v.requests pid = some r)
    (hdb : ∀ db, act = .revoke db → db = true)
    (h : LocalStep v.config v.now ⟨v.row, v.account, r⟩ act l) : Leaving (v.put pid l) := by
  cases hv with
  | inl hrow => exact Or.inl (h.row_eq_none hrow)
  | inr hany =>
      cases hany.set hr with
      | inl hstage =>
          cases h.revoking hstage hdb with
          | inl hstage => exact Or.inr (Slots.Any.set_self hstage)
          | inr hrow => exact Or.inl hrow
      | inr hany => exact Or.inr hany

theorem Leaving.arrive {v : View} (hv : Leaving v) (hnew : v.requests pid = none)
    (i : SessionId) : Leaving (v.arrive i pid) :=
  hv.imp_right fun hany => hany.set_of_none hnew

/-- A request that starts after the conclusion finds the row gone. -/
theorem Leaving.turnedAway {v : View} (hv : Leaving v) (hr : v.requests pid = some r)
    (hothers : ∀ db, act = .select db → v.requests.Others pid fun r' => r'.stage ≠ .revoking)
    (hstage : r.stage.Outside) (h : LocalStep v.config v.now ⟨v.row, v.account, r⟩ act l) :
    l.request.stage.Outside := by
  refine h.outside hstage fun db hselect => hv.resolve_right ?_
  refine Slots.All.not_any ((Slots.all_iff hr).mpr ⟨fun hrevoking => ?_, hothers db hselect⟩)
  rw [hrevoking] at hstage
  exact hstage.elim

theorem Revocation.move {a : Action} {v' : View}
    (hv : ∀ acc, (w.view i).account = some acc → Revocation (w.view i) acc)
    (hnew : (w.view i).Unissued) (hmeets : OutcomesWritten w a)
    (h : ViewStep i (w.view i) a v') {acc : Account} (hacc : v'.account = some acc) :
    Revocation v' acc := by
  cases h with
  | elsewhere => exact ⟨(hv acc hacc).leaving, (hv acc hacc).turnedAway⟩
  | @start pid hnone =>
      obtain ⟨hleaving, hturned⟩ := hv acc hacc
      have hacc : (w.view i).account = some acc := hacc
      refine ⟨fun hmark => (hleaving hmark).arrive hnone i, Slots.all_set.mpr ⟨fun hmark => ?_, ?_⟩⟩
      · rw [hacc] at hmark
        exact ⟨(hleaving hmark).arrive hnone i, trivial⟩
      · intro q r hr _ hmark
        obtain ⟨hleaves, hstage⟩ := hturned q r hr hmark
        exact ⟨hleaves.arrive hnone i, hstage⟩
  | @request pid r act l hr hlocal =>
      obtain ⟨a₀, ha₀, hrevoked⟩ := hlocal.revoked hacc
      obtain ⟨hleaving, hturned⟩ := hv a₀ ha₀
      have hdb : ∀ db, act = .revoke db → db = true := by
        rintro db rfl
        exact hmeets.2
      refine ⟨fun hmark => ?_, Slots.all_set.mpr ⟨fun hmark => ?_, fun q r' hr' _ hmark => ?_⟩⟩
      · cases hrevoked hmark with
        | inl hmark => exact (hleaving hmark).request hr hdb hlocal
        | inr hstage => exact Or.inr (Slots.Any.set_self hstage)
      · rw [hlocal.request_eq] at hmark
        obtain ⟨hleaves, hstage⟩ := hturned pid r hr hmark
        refine ⟨hleaves.request hr hdb hlocal, hleaves.turnedAway hr ?_ hstage hlocal⟩
        rintro db rfl
        obtain ⟨hr₀, hid⟩ := World.requests_view.mp hr
        subst hid
        exact (World.others_iff hr).mpr ((hmeets.2 r hr₀ a₀ ha₀).1 hmark)
      · obtain ⟨hleaves, hstage⟩ := hturned q r' hr' hmark
        exact ⟨hleaves.request hr hdb hlocal, hstage⟩
  | removed =>
      refine ⟨fun _ => Or.inl rfl, (hv acc hacc).turnedAway.imp fun r hturned hmark => ?_⟩
      exact ⟨Or.inl rfl, (hturned hmark).2⟩
  | login hlogin hnone =>
      cases hacc
      refine ⟨nofun, (hnew hnone).2.imp fun r hunserved hmark => ?_⟩
      rw [hunserved.2.2] at hmark
      contradiction
  | restart =>
      refine ⟨fun hmark => Or.inl ?_, Slots.all_empty⟩
      have hidle := World.all_of_requests hmeets.2 i
      exact ((hv acc hacc).leaving hmark).resolve_right hidle.not_any

end Move

/-! ## groups -/

/-- Requests have nothing older than what the provider had named when they
started. -/
structure Fresh (v : View) (verified : List (List Text)) : Prop where
  mark : v.requests.All fun r => r.verifiedAtStart ≤ verified.length
  held : v.requests.All fun r => ∀ groups, r.stage.held? = some groups →
    groups ∈ since verified r.verifiedAtStart

theorem mem_since_of_head {verified : List (List Text)} {groups : List Text}
    (h : verified.head? = some groups) (mark : Nat) : groups ∈ since verified mark := by
  obtain ⟨rest, rfl⟩ := List.head?_eq_some_iff.mp h
  simp [since]

theorem mem_since_of_recent {verified : List (List Text)} {groups : List Text} {mark : Nat}
    (h : groups ∈ verified.take 2) (hmark : mark < verified.length) :
    groups ∈ since verified mark :=
  List.take_subset_take_left verified (by omega) h

/-- What counted as fresh still does when more groups are named. -/
theorem mem_since_cons {verified : List (List Text)} {groups new : List Text} {mark : Nat}
    (hmark : mark ≤ verified.length) (h : groups ∈ since verified mark) :
    groups ∈ since (new :: verified) mark := by
  have hlen : (new :: verified).length - mark + 1 = (verified.length - mark + 1) + 1 := by
    rw [List.length_cons]
    omega
  rw [since, hlen, List.take_succ_cons]
  exact List.mem_cons_of_mem new h

theorem Fresh.request {v : View} {pid : Nat} {r : Request} {act : RequestAction} {l : Local}
    {acc acc' : Account} (hacc : v.account = some acc) (hacc' : l.account = some acc')
    (hv : Fresh v acc.verified) (hstored : Stored v acc.verified) (hr : v.requests pid = some r)
    (hselect : ∀ db, act = .select db → r.verifiedAtStart = acc.verified.length →
      v.requests.Others pid fun r' => r'.stage.recording? = none)
    (h : LocalStep v.config v.now ⟨v.row, v.account, r⟩ act l) :
    Fresh (v.put pid l) acc'.verified := by
  have hself : l.request.verifiedAtStart = r.verifiedAtStart := by rw [h.request_eq]
  have hmark : r.verifiedAtStart ≤ acc.verified.length := hv.mark pid r hr
  cases h.groups with
  | @verified _ _ groups _ _ _ hheld _ haccount =>
      rw [haccount] at hacc'
      obtain ⟨a, ha, rfl⟩ := Option.map_eq_some_iff.mp hacc'
      cases hacc.symm.trans ha
      have hmore : acc.verified.length ≤ (acc.verify groups).verified.length := Nat.le_succ _
      refine ⟨(hv.mark.imp fun _ hle => hle.trans hmore).set (hself ▸ hmark.trans hmore),
        Slots.all_set.mpr ⟨fun g hg => ?_, fun q r' hr' _ g hg => ?_⟩⟩
      · rw [hheld] at hg
        contradiction
      · exact mem_since_cons (hv.mark q r' hr') (hv.held q r' hr' g hg)
  | record hrecording _ hheld _ haccount =>
      cases hacc.symm.trans (haccount.symm.trans hacc')
      refine ⟨hv.mark.set (hself ▸ hmark), hv.held.set fun g hg => ?_⟩
      rw [hheld] at hg
      cases hg
      exact mem_since_of_head (hstored.recording pid r hr _ hrecording) _
  | quiet hrecording hheld _ _ haccount =>
      obtain ⟨a, ha, hverified⟩ := haccount acc' hacc'
      cases hacc.symm.trans ha
      rw [hverified]
      refine ⟨hv.mark.set (hself ▸ hmark), hv.held.set fun g hg => ?_⟩
      rw [hself]
      cases hheld g hg with
      | inl hreads =>
          -- the row lags behind only while a re-check has groups to record
          obtain ⟨s, db, hact, hs, -, rfl⟩ := hreads
          by_cases hlast : r.verifiedAtStart = acc.verified.length
          · have hidle := hrecording.symm.trans (Stage.recording?_of_held? hg)
            exact mem_since_of_head (hstored.head hr hidle (hselect db hact hlast) hs) _
          · exact mem_since_of_recent (hstored.recent s hs) (lt_of_le_of_ne hmark hlast)
      | inr hold => exact hv.held pid r hr g hold

/-- The invariant of one session. -/
structure Heeded (v : View) : Prop where
  unissued : v.Unissued
  revocation : ∀ acc, v.account = some acc → Revocation v acc
  stored : StoredGroups v
  fresh : ∀ acc, v.account = some acc → acc.origin = .oidcLogin → Fresh v acc.verified

theorem Heeded.fresh_move {w : World} {i : SessionId} {a : Action} {v' : View}
    (hv : Heeded (w.view i)) (hmeets : OutcomesWritten w a) (h : ViewStep i (w.view i) a v')
    {acc : Account} (hacc : v'.account = some acc) (horigin : acc.origin = .oidcLogin) :
    Fresh v' acc.verified := by
  cases h with
  | elsewhere =>
      obtain ⟨hmark, hheld⟩ := hv.fresh acc hacc horigin
      exact ⟨hmark, hheld⟩
  | @start pid hnone =>
      obtain ⟨hmark, hheld⟩ := hv.fresh acc hacc horigin
      have hacc : (w.view i).account = some acc := hacc
      refine ⟨hmark.set ?_, hheld.set fun g hg => ?_⟩
      · simp [newRequest, hacc]
      · contradiction
  | @request pid r act l hr hlocal =>
      obtain ⟨a₀, ha₀, -, hsame⟩ := hlocal.account_cases hacc
      have horigin₀ : a₀.origin = .oidcLogin := hsame ▸ horigin
      refine (hv.fresh a₀ ha₀ horigin₀).request ha₀ hacc (hv.stored a₀ ha₀ horigin₀) hr ?_ hlocal
      rintro db rfl hlast
      obtain ⟨hr₀, hid⟩ := World.requests_view.mp hr
      subst hid
      exact (World.others_iff hr).mpr ((hmeets.2 r hr₀ a₀ ha₀).2 hlast)
  | removed =>
      obtain ⟨hmark, hheld⟩ := hv.fresh acc hacc horigin
      exact ⟨hmark, hheld⟩
  | login hlogin hnone =>
      have hunserved := (hv.unissued hnone).2
      cases hacc
      refine ⟨hunserved.imp fun r hr => ?_, hunserved.imp fun r hr g hg => ?_⟩
      · rw [hr.2.1]
        exact Nat.zero_le _
      · rw [hr.1.held?] at hg
        contradiction
  | restart => exact ⟨Slots.all_empty, Slots.all_empty⟩

theorem Stage.Outside.groups? {stage : Stage} (h : stage.Outside) : stage.groups? = none := by
  cases stage <;> first | rfl | exact h.elim

theorem Stage.held?_of_groups? {stage : Stage} {groups : List Text}
    (h : stage.groups? = some groups) : stage.held? = some groups := by
  cases stage <;> first | exact h | cases h

/-- **Outcomes are heeded**, in every run in which they are written in time. -/
theorem outcomes_heeded {config : AuthConfig} {w : World}
    (h : Reachable World.step OutcomesWritten (World.init config) w) : OutcomesHeeded w := by
  have hinv : ∀ i, Heeded (w.view i) := by
    refine h.invariant (fun w => ∀ i, Heeded (w.view i)) ?_ ?_
    · exact fun i => ⟨unissued_of_reachable (P := OutcomesWritten) .init i, nofun, nofun, nofun⟩
    · intro w a w' _ hw hmeets hstep i
      have hmove := World.step_view hstep i
      exact ⟨hmove.unissued (hw i).unissued,
        fun acc hacc => Revocation.move (hw i).revocation (hw i).unissued hmeets hmove hacc,
        (hw i).stored.move (hw i).unissued hmeets.1 hmove,
        fun acc hacc horigin => (hw i).fresh_move hmeets hmove hacc horigin⟩
  intro r hr a ha horigin
  obtain ⟨q, hq⟩ := List.mem_iff_getElem?.mp hr
  have hview : (w.view r.id).requests q = some r := World.requests_view.mpr ⟨hq, rfl⟩
  have hrevocation := (hinv r.id).revocation a ha
  have hfresh := (hinv r.id).fresh a ha horigin
  refine ⟨fun hmark => (hrevocation.turnedAway q r hview hmark).2.groups?, fun groups hgroups => ?_⟩
  exact hfresh.held q r hview groups (Stage.held?_of_groups? hgroups)

/-- Alice loses a group, and is refused afterwards. -/
theorem outcomes_heeded_alice : ∃ w,
    Reachable World.step OutcomesWritten (World.init sampleConfig) w ∧
      w.requests.map (fun r => r.stage.groups?) = [some ["staff".toList], none, none] ∧
      OutcomesHeeded w := by
  obtain ⟨w, hw, hgroups⟩ := exists_reachable World.step OutcomesWritten (World.init sampleConfig)
    (fun w => w.requests.map (fun r => r.stage.groups?) = [some ["staff".toList], none, none])
    ([sampleLogin, .tick 14] ++ sampleClaim 0 ++
      [.request 0 (.refresh (.issued "r1".toList true)),
        .request 0 (.tokenClaims (some (sampleClaims "staff"))), .request 0 (.record true),
        .tick 11] ++ sampleClaim 1 ++
      [.request 1 (.refresh .refused), .request 1 (.revoke true), .start [1],
        .request 2 (.select true)])
    (by decide +kernel)
  exact ⟨w, hw, hgroups, outcomes_heeded hw⟩

/-- When the DELETE of a refused session fails, the next request is not due
and is let in. -/
theorem failed_delete_unheeded : ∃ w,
    Reachable World.step (fun _ _ => True) (World.init sampleConfig) w ∧ ¬ OutcomesHeeded w := by
  obtain ⟨w, hw, hunheeded⟩ := exists_reachable World.step (fun _ _ => True)
    (World.init sampleConfig) (fun w => ¬ OutcomesHeeded w)
    ([sampleLogin, .tick 14] ++ sampleClaim 0 ++
      [.request 0 (.refresh .refused), .request 0 (.revoke false)] ++ sampleClaim 1)
    (by decide +kernel)
  exact ⟨w, hw, hunheeded⟩

end Cuttlefish
