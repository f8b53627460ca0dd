import Cuttlefish.Run
import Cuttlefish.Session.View

/-!
# Cuttlefish.Session.Move

The server as one session sees it, step by step.  Every statement names its
session by `id_hash`, so what happens to a session depends on nothing but its
own row and its own requests: `World.step_view` says that a step of the server
is, for each session, one of the moves of `ViewStep`.

Invariants are stated of views and proved by cases on these moves.
-/

namespace Cuttlefish

/-! ## steps of the server -/

/-- The moves of one session. -/
inductive ViewStep (i : SessionId) (v : View) : Action → View → Prop
  /-- Time passes, or another session is concerned. -/
  | elsewhere {a : Action} {now : Int} (h : v.now ≤ now) : ViewStep i v a { v with now := now }
  | start {pid : Nat} (hnew : v.requests pid = none) : ViewStep i v (.start i) (v.arrive i pid)
  | request {pid : Nat} {r : Request} {act : RequestAction} {l : Local}
      (hr : v.requests pid = some r)
      (h : LocalStep v.config v.now ⟨v.row, v.account, r⟩ act l) :
      ViewStep i v (.request pid act) (v.put pid l)
  /-- A logout, or the row expired. -/
  | removed {a : Action} : ViewStep i v a { v with row := none }
  | login {credential : Credential} {cleanup : Bool} {login : Login}
      (h : authenticate v.config credential = some login) (hnew : v.account = none) :
      ViewStep i v (.login i credential cleanup true)
        { v with
          row := some (newSession v.config v.now login), account := some (newAccount v.now login) }
  | restart {raw config : AuthConfig} (h : raw.load = some config) :
      ViewStep i v (.restart raw) { v with config := config, requests := .empty }

theorem World.requests_view {w : World} {i : SessionId} {pid : Nat} {r : Request} :
    (w.view i).requests pid = some r ↔ w.requests[pid]? = some r ∧ r.id = i := by
  simp [World.view, Option.filter_eq_some_iff]

theorem World.view_put_of_ne {w : World} {i : SessionId} {pid : Nat} {r : Request} {l : Local}
    (hr : w.requests[pid]? = some r) (hid : l.request.id = r.id) (hne : r.id ≠ i) :
    (w.put pid r.id l).view i = w.view i := by
  have hlt : pid < w.requests.length := (List.getElem?_eq_some_iff.mp hr).1
  simp only [World.view, World.put, View.mk.injEq, true_and]
  refine ⟨Function.update_of_ne hne.symm _ _, Function.update_of_ne hne.symm _ _, ?_⟩
  funext q
  rw [List.getElem?_set]
  split_ifs with hq
  · subst hq
    simp [hr, Option.filter, hid, hne]
  · rfl

theorem World.view_put {w : World} {pid : Nat} {r : Request} {l : Local}
    (hr : w.requests[pid]? = some r) (hid : l.request.id = r.id) :
    (w.put pid r.id l).view r.id = (w.view r.id).put pid l := by
  have hlt : pid < w.requests.length := (List.getElem?_eq_some_iff.mp hr).1
  simp only [World.view, World.put, View.put, View.mk.injEq, true_and, Function.update_self]
  funext q
  rw [List.getElem?_set, Slots.set, Function.update_apply]
  by_cases hq : q = pid
  · subst hq
    simp [hlt, hid]
  · rw [if_neg (Ne.symm hq), if_neg hq]

/-- Nothing of the session changes. -/
theorem ViewStep.idle {i : SessionId} {v : View} {a : Action} : ViewStep i v a v :=
  .elsewhere (le_refl v.now)

theorem World.view_start {w : World} (j i : SessionId) :
    ViewStep i (w.view i) (.start j)
      ({ w with requests := w.requests ++ [newRequest w.now j (w.accounts j)] }.view i) := by
  have happend : ∀ q, (w.requests ++ [newRequest w.now j (w.accounts j)])[q]? =
      if q = w.requests.length then some (newRequest w.now j (w.accounts j))
      else w.requests[q]? := by
    intro q
    grind
  by_cases hi : j = i
  · subst hi
    have hview : ({ w with requests := w.requests ++ [newRequest w.now j (w.accounts j)] } :
        World).view j = (w.view j).arrive j w.requests.length := by
      simp only [World.view, View.arrive, View.mk.injEq, true_and]
      funext q
      rw [Slots.set, Function.update_apply, happend]
      split_ifs
      · simp [Option.filter, newRequest]
      · rfl
    rw [hview]
    exact .start (by simp [World.view])
  · have hview : ({ w with requests := w.requests ++ [newRequest w.now j (w.accounts j)] } :
        World).view i = w.view i := by
      simp only [World.view, View.mk.injEq, true_and]
      funext q
      rw [happend]
      split_ifs with hq
      · simp [hq, Option.filter, newRequest, hi]
      · rfl
    rw [hview]
    exact .idle

theorem World.view_logout {w : World} (j i : SessionId) :
    ViewStep i (w.view i) (.logout j true)
      ({ w with sessions := Function.update w.sessions j none }.view i) := by
  by_cases hi : i = j
  · subst hi
    have hview : ({ w with sessions := Function.update w.sessions i none } : World).view i =
        { w.view i with row := none } := by
      simp [World.view]
    rw [hview]
    exact .removed
  · have hview : ({ w with sessions := Function.update w.sessions j none } : World).view i =
        w.view i := by
      simp [World.view, hi]
    rw [hview]
    exact .idle

/-- The cleanup keeps a row or drops it. -/
theorem World.view_cleanup {w : World} {a : Action} (cleanup : Bool) (i : SessionId) :
    ViewStep i (w.view i) a ((w.cleanup cleanup).view i) := by
  cases cleanup with
  | false => exact .idle
  | true =>
      have hrow : ((w.sessions i).filter fun s => ¬ s.expiresAt < w.now) = w.sessions i ∨
          ((w.sessions i).filter fun s => ¬ s.expiresAt < w.now) = none := by
        cases w.sessions i with
        | none => exact Or.inl rfl
        | some s => by_cases hs : s.expiresAt < w.now <;> simp [Option.filter, hs]
      rcases hrow with hrow | hrow
      · have hview : (w.cleanup true).view i = w.view i := by
          simp only [World.view, World.cleanup, if_true, hrow]
        rw [hview]
        exact .idle
      · have hview : (w.cleanup true).view i = { w.view i with row := none } := by
          simp only [World.view, World.cleanup, if_true, hrow]
        rw [hview]
        exact .removed

theorem World.view_issueSession {w : World} {j : SessionId} {credential : Credential}
    {login : Login} {cleanup insert : Bool} (h : authenticate w.config credential = some login)
    (hnew : w.accounts j = none) (i : SessionId) :
    ViewStep i (w.view i) (.login j credential cleanup insert)
      ((w.issueSession j login cleanup insert).view i) := by
  cases insert with
  | false => exact World.view_cleanup cleanup i
  | true =>
      by_cases hi : i = j
      · subst hi
        have hview : (w.issueSession i login cleanup true).view i =
            { w.view i with
              row := some (newSession w.config w.now login)
              account := some (newAccount w.now login) } := by
          cases cleanup <;> simp [World.view, World.issueSession, World.cleanup]
        rw [hview]
        exact .login h hnew
      · have hview : (w.issueSession j login cleanup true).view i = (w.cleanup cleanup).view i := by
          cases cleanup <;> simp [World.view, World.issueSession, World.cleanup, hi]
        rw [hview]
        exact World.view_cleanup cleanup i

/-- **A step of the server is a move of every session.** -/
theorem World.step_view {w w' : World} {a : Action} (h : w.step a = some w') (i : SessionId) :
    ViewStep i (w.view i) a (w'.view i) := by
  cases a with
  | tick d =>
      cases h
      have hnow : w.now ≤ w.now + d := Int.le_add_of_nonneg_right (Int.natCast_nonneg d)
      exact ViewStep.elsewhere hnow
  | start j =>
      cases h
      exact World.view_start j i
  | request pid act =>
      simp only [World.step] at h
      cases hr : w.requests[pid]? with
      | none => simp [hr] at h
      | some r =>
          rw [hr] at h
          obtain ⟨l, hl, rfl⟩ := Option.map_eq_some_iff.mp h
          have hlocal := Local.next_cases hl
          have hid := congrArg Request.id hlocal.request_eq
          by_cases hi : r.id = i
          · subst hi
            rw [World.view_put hr hid]
            exact .request (World.requests_view.mpr ⟨hr, rfl⟩) hlocal
          · rw [World.view_put_of_ne hr hid hi]
            exact .idle
  | logout j db =>
      cases h
      cases db with
      | false => exact .idle
      | true => exact World.view_logout j i
  | login j credential cleanup insert =>
      simp only [World.step] at h
      split at h
      next login hlogin hnew =>
          cases h
          exact World.view_issueSession hlogin hnew i
      next => cases h
  | restart raw =>
      obtain ⟨config, hload, rfl⟩ := Option.map_eq_some_iff.mp h
      exact .restart hload

/-! ## the other requests of a session -/

/-- The requests of a session. -/
def World.on (w : World) (i : SessionId) : List Request := w.requests.filter fun r => r.id = i

/-- The requests of the session of `pid`, but for `pid` itself. -/
def World.others (w : World) (pid : Nat) : List Request :=
  match w.requests[pid]? with
  | none => []
  | some r => (w.requests.eraseIdx pid).filter fun r' => r'.id = r.id

theorem World.mem_others_iff {w : World} {i : SessionId} {pid : Nat} {r r' : Request}
    (hr : (w.view i).requests pid = some r) :
    r' ∈ w.others pid ↔ ∃ q, q ≠ pid ∧ (w.view i).requests q = some r' := by
  obtain ⟨hat, rfl⟩ := World.requests_view.mp hr
  simp only [World.others, hat, List.mem_filter, List.mem_eraseIdx_iff_getElem?,
    World.requests_view, decide_eq_true_eq, ← and_assoc, exists_and_right]

section Quantifiers

variable {w : World} {i : SessionId} {pid : Nat} {r : Request} {P : Request → Prop}

theorem World.all_on_iff : (w.view i).requests.All P ↔ ∀ r ∈ w.on i, P r := by
  constructor
  · intro h r hr
    obtain ⟨hmem, hid⟩ := List.mem_filter.mp hr
    obtain ⟨q, hq⟩ := List.mem_iff_getElem?.mp hmem
    exact h q r (World.requests_view.mpr ⟨hq, of_decide_eq_true hid⟩)
  · intro h q r hr
    obtain ⟨hq, hid⟩ := World.requests_view.mp hr
    exact h r (List.mem_filter.mpr ⟨List.mem_of_getElem? hq, decide_eq_true hid⟩)

theorem World.all_of_requests (h : ∀ r ∈ w.requests, P r) (i : SessionId) :
    (w.view i).requests.All P :=
  World.all_on_iff.mpr fun r hr => h r (List.mem_filter.mp hr).1

theorem World.others_iff (hr : (w.view i).requests pid = some r) :
    (w.view i).requests.Others pid P ↔ ∀ r' ∈ w.others pid, P r' := by
  constructor
  · intro h r' hr'
    obtain ⟨q, hq, hview⟩ := (World.mem_others_iff hr).mp hr'
    exact h q r' hview hq
  · intro h q r' hview hq
    exact h r' ((World.mem_others_iff hr).mpr ⟨q, hq, hview⟩)

end Quantifiers

/-! ## before the login -/

/-- Where a request stands that has found no session. -/
def Stage.Outside : Stage → Prop
  | .started | .unauthorized => True
  | _ => False

theorem Stage.Outside.not_inFlight {stage : Stage} (h : stage.Outside) : ¬ stage.InFlight := by
  cases stage <;> first | exact id | exact h.elim

/-- A request that finds no row stays outside. -/
theorem LocalStep.outside {config : AuthConfig} {now : Int} {l l' : Local} {act : RequestAction}
    (h : LocalStep config now l act l') (hstage : l.request.stage.Outside)
    (hrow : ∀ db, act = .select db → l.row = none) : l'.request.stage.Outside := by
  cases h with
  | denied => trivial
  | selectLocal _ hsome | select _ hsome =>
      have hnone := hrow true rfl
      rw [hsome] at hnone
      contradiction
  | cancel => exact hstage
  | _ hother =>
      rw [hother] at hstage
      exact hstage.elim

/-- A request that has no session. -/
def Request.Unserved (r : Request) : Prop :=
  r.stage.Outside ∧ r.verifiedAtStart = 0 ∧ r.revokedAtStart = false

/-- A cookie that was never issued opens nothing. -/
def View.Unissued (v : View) : Prop :=
  v.account = none → v.row = none ∧ v.requests.All Request.Unserved

theorem ViewStep.unissued {i : SessionId} {v v' : View} {a : Action} (h : ViewStep i v a v')
    (hv : v.Unissued) : v'.Unissued := by
  intro hnone
  cases h with
  | elsewhere => exact hv hnone
  | start hnew =>
      have hnone : v.account = none := hnone
      obtain ⟨hrow, hrequests⟩ := hv hnone
      have hunserved : (newRequest v.now i v.account).Unserved :=
        ⟨trivial, by simp [newRequest, hnone]⟩
      exact ⟨hrow, hrequests.set hunserved⟩
  | @request pid r act l hr hlocal =>
      obtain ⟨hrow, hrequests⟩ := hv (hlocal.account_ne_none hnone)
      obtain ⟨hstage, hmarks⟩ := hrequests pid r hr
      have hunserved : l.request.Unserved := by
        refine ⟨hlocal.outside hstage fun _ _ => hrow, ?_⟩
        rw [hlocal.request_eq]
        exact hmarks
      exact ⟨hlocal.row_eq_none hrow, hrequests.set hunserved⟩
  | removed => exact ⟨rfl, (hv hnone).2⟩
  | login => contradiction
  | restart => exact ⟨(hv hnone).1, Slots.all_empty⟩

theorem unissued_of_reachable {P : World → Action → Prop} {config : AuthConfig} {w : World}
    (h : Reachable World.step P (World.init config) w) (i : SessionId) : (w.view i).Unissued := by
  have hinit : ∀ i, ((World.init config).view i).Unissued :=
    fun i _ => ⟨rfl, World.all_of_requests (by simp [World.init]) i⟩
  refine h.invariant (fun w => ∀ i, (w.view i).Unissued) hinit ?_ i
  intro w a w' _ hw _ hstep i
  exact (World.step_view hstep i).unissued (hw i)

/-! ## runs -/

/-- No statement fails, and the server is not restarted. -/
def StatementsSucceed : Action → Prop
  | .request _ (.select db) | .request _ (.claim db) | .request _ (.record db)
  | .request _ (.revoke db) | .request _ (.resolve db) | .logout _ db => db = true
  | .login _ _ cleanup insert => cleanup = true ∧ insert = true
  | .restart _ => False
  | _ => True

instance : DecidablePred StatementsSucceed
  | .request _ (.select _) | .request _ (.claim _) | .request _ (.record _)
  | .request _ (.revoke _) | .request _ (.resolve _) | .logout _ _ =>
      inferInstanceAs (Decidable (_ = true))
  | .login .. => inferInstanceAs (Decidable (_ ∧ _))
  | .restart _ => isFalse id
  | .request _ (.refresh _) | .request _ (.tokenClaims _) | .request _ .cancel | .tick _
  | .start _ => isTrue trivial

/-- A provider that is asked again after 10 seconds. -/
def sampleConfig : AuthConfig where
  oidc :=
    { issuer := "https://idp".toList, groupsClaim := "groups".toList,
      adminGroups := ["admins".toList], recheckInterval := 10 }

def sampleClaims (group : String) : Claims :=
  [("email".toList, .text "alice".toList), ("groups".toList, .array [some group.toList])]

/-- Alice signs in and gets the refresh token `r0`. -/
def sampleLogin : Action := .login [1] (.code (sampleClaims "admins") "r0".toList) true true

/-- A request that claims the re-check. -/
def sampleClaim (pid : Nat) : List Action :=
  [.start [1], .request pid (.select true), .request pid (.claim true)]

end Cuttlefish
