import Cuttlefish.Session.Move

/-!
# Cuttlefish.Session.Tokens

Rotating refresh tokens: none is presented twice, and the row holds the last
one issued, as long as the re-checks of a session come one after the other
and each runs its final statement.
-/

namespace Cuttlefish

/-- No token is presented twice, and between re-checks the row holds the
last one issued. -/
def SpentOnce (w : World) (i : SessionId) : Prop :=
  ∀ a ∈ w.accounts i, a.presented.Nodup ∧
    ∀ s ∈ w.sessions i, (∀ r ∈ w.on i, ¬ r.stage.InFlight) → s.refreshToken = a.tokens.head?

instance (w : World) (i : SessionId) : Decidable (SpentOnce w i) :=
  inferInstanceAs (Decidable (∀ a ∈ w.accounts i, _))

/-- The provider issues a fresh token on every refresh. -/
def FreshTokens (w : World) : Action → Prop
  | .request pid (.refresh (.issued new _)) =>
      new ≠ [] ∧ ∀ r ∈ w.requests[pid]?, ∀ a ∈ w.accounts r.id, new ∉ a.tokens
  | _ => True

instance (w : World) : DecidablePred (FreshTokens w)
  | .request _ (.refresh (.issued _ _)) => inferInstanceAs (Decidable (_ ∧ ∀ r ∈ _, _))
  | .request _ (.refresh .unreachable) | .request _ (.refresh .refused)
  | .request _ (.select _) | .request _ (.claim _) | .request _ (.tokenClaims _)
  | .request _ (.record _) | .request _ (.revoke _) | .request _ (.resolve _)
  | .request _ .cancel | .tick _ | .start _ | .logout _ _ | .login .. | .restart _ =>
      isTrue trivial

/-- A re-check becomes due when no other of the session is under way, and
its final statement succeeds. -/
def RechecksApart (w : World) : Action → Prop
  | .request pid (.claim _) =>
      ∀ r ∈ w.requests[pid]?, ∀ s ∈ w.sessions r.id,
        s.checkedAt < w.now - w.config.oidc.recheckInterval →
          ∀ r' ∈ w.others pid, ¬ r'.stage.InFlight
  | .request _ (.record db) | .request _ (.revoke db) => db = true
  | .restart _ => ∀ r ∈ w.requests, ¬ r.stage.InFlight
  | _ => True

instance (w : World) : DecidablePred (RechecksApart w)
  | .request _ (.claim _) | .restart _ => inferInstanceAs (Decidable (∀ r ∈ _, _))
  | .request _ (.record _) | .request _ (.revoke _) => inferInstanceAs (Decidable (_ = true))
  | .request _ (.select _) | .request _ (.refresh _) | .request _ (.tokenClaims _)
  | .request _ (.resolve _) | .request _ .cancel | .tick _ | .start _ | .logout _ _
  | .login .. => isTrue trivial

/-! ## one session -/

/-- The token a re-check goes on with. -/
def Stage.token? : Stage → Option Text
  | .claimed _ token => some token
  | .refreshed _ token newToken _ => some (if newToken = [] then token else newToken)
  | .recording _ _ token => some token
  | _ => none

theorem Stage.token?_eq_none {stage : Stage} (h : ¬ stage.InFlight) : stage.token? = none := by
  cases stage <;> first | rfl | exact absurd trivial h

/-- Only a re-check has a token. -/
theorem Stage.inFlight_of_token? {stage : Stage} {token : Text}
    (h : stage.token? = some token) : stage.InFlight := by
  by_contra hidle
  rw [Stage.token?_eq_none hidle] at h
  contradiction

/-- A token that was issued last and has not been presented. -/
def Account.Unspent (a : Account) (token : Text) : Prop :=
  a.tokens.head? = some token ∧ token ∉ a.presented

/-- Outside a re-check a request has no token. -/
theorem Account.unspent_of_idle {stage : Stage} {a : Account} (hidle : ¬ stage.InFlight) :
    ∀ token, stage.token? = some token → a.Unspent token := by
  intro token htoken
  rw [Stage.token?_eq_none hidle] at htoken
  contradiction

/-- The tokens of a session. -/
structure Spent (v : View) (a : Account) : Prop where
  nodup : a.presented.Nodup
  issued : ∀ token ∈ a.presented, token ∈ a.tokens
  single : v.requests.AtMostOne fun r => r.stage.InFlight
  held : v.requests.All fun r => ∀ token, r.stage.token? = some token → a.Unspent token
  row : ∀ s, v.row = some s → (v.requests.All fun r => ¬ r.stage.InFlight) →
    s.refreshToken = a.tokens.head? ∧ ∀ token, s.refreshToken = some token → a.Unspent token

section Request

variable {v : View} {pid : Nat} {r : Request} {act : RequestAction} {l : Local} {a a' : Account}

/-- The only re-check under way goes on. -/
theorem Spent.underway (hothers : v.requests.Others pid fun r => ¬ r.stage.InFlight)
    (hnodup : a'.presented.Nodup) (hissued : ∀ token ∈ a'.presented, token ∈ a'.tokens)
    (hfly : l.request.stage.InFlight)
    (hheld : ∀ token, l.request.stage.token? = some token → a'.Unspent token) :
    Spent (v.put pid l) a' where
  nodup := hnodup
  issued := hissued
  single := hothers.atMostOne_set
  held := Slots.all_set.mpr ⟨hheld, hothers.imp fun _ hidle => Account.unspent_of_idle hidle⟩
  row _ _ hall := absurd hfly (Slots.all_set.mp hall).1

/-- The only re-check under way runs its final statement. -/
theorem Spent.finished (hothers : v.requests.Others pid fun r => ¬ r.stage.InFlight)
    (hnodup : a'.presented.Nodup) (hissued : ∀ token ∈ a'.presented, token ∈ a'.tokens)
    (hidle : ¬ l.request.stage.InFlight)
    (hrow : ∀ s, l.row = some s → ∃ token, s.refreshToken = some token ∧ a'.Unspent token) :
    Spent (v.put pid l) a' where
  nodup := hnodup
  issued := hissued
  single := hothers.atMostOne_set
  held := Slots.all_set.mpr ⟨Account.unspent_of_idle hidle,
    hothers.imp fun _ hidle => Account.unspent_of_idle hidle⟩
  row s hs _ := by
    obtain ⟨token, htoken, hunspent⟩ := hrow s hs
    refine ⟨htoken.trans hunspent.1.symm, fun token' htoken' => ?_⟩
    cases htoken.symm.trans htoken'
    exact hunspent

/-- Steps outside a re-check do not touch tokens. -/
theorem Spent.quiet (hv : Spent v a) (hr : v.requests pid = some r)
    (hfly : l.request.stage.InFlight ↔ r.stage.InFlight)
    (htoken : l.request.stage.token? = r.stage.token?)
    (hrow : ∀ s', l.row = some s' → ∃ s, v.row = some s ∧ s'.refreshToken = s.refreshToken) :
    Spent (v.put pid l) a where
  nodup := hv.nodup
  issued := hv.issued
  single := hv.single.set hr hfly.mp
  held := by
    refine hv.held.set ?_
    rw [htoken]
    exact hv.held pid r hr
  row s' hs' hall := by
    obtain ⟨s, hs, hsame⟩ := hrow s' hs'
    obtain ⟨hidle, hothers⟩ := Slots.all_set.mp hall
    rw [hsame]
    exact hv.row s hs ((Slots.all_iff hr).mpr ⟨fun hold => hidle (hfly.mpr hold), hothers⟩)

/-- The books stay in order when an unspent token is presented. -/
theorem Account.Unspent.book {token : Text} (h : a.Unspent token) (hnodup : a.presented.Nodup)
    (hissued : ∀ t ∈ a.presented, t ∈ a.tokens) (reply : RefreshReply) :
    (reply.book token a).presented.Nodup ∧
      ∀ t ∈ (reply.book token a).presented, t ∈ (reply.book token a).tokens := by
  have hmem : token ∈ a.tokens := List.mem_of_head? h.1
  have hpresented : ∀ t ∈ token :: a.presented, t ∈ a.tokens := by
    simpa using ⟨hmem, hissued⟩
  cases reply with
  | unreachable => exact ⟨hnodup, hissued⟩
  | refused => exact ⟨List.nodup_cons.mpr ⟨h.2, hnodup⟩, hpresented⟩
  | issued new idToken =>
      refine ⟨List.nodup_cons.mpr ⟨h.2, hnodup⟩, fun t ht => ?_⟩
      simp only [RefreshReply.book, Account.issue]
      split_ifs
      · exact hpresented t ht
      · exact List.mem_cons_of_mem new (hpresented t ht)

/-- A fresh token is the next to present. -/
theorem Account.Unspent.issued {token new : Text} {idToken : Bool} (h : a.Unspent token)
    (hissued : ∀ t ∈ a.presented, t ∈ a.tokens) (hne : new ≠ []) (hnew : new ∉ a.tokens) :
    ((RefreshReply.issued new idToken).book token a).Unspent new := by
  have hmem : token ∈ a.tokens := List.mem_of_head? h.1
  refine ⟨?_, ?_⟩
  · simp [RefreshReply.book, Account.issue, hne]
  · simp only [RefreshReply.book, Account.issue, Account.present, List.mem_cons, not_or]
    exact ⟨fun heq => hnew (heq ▸ hmem), fun hpresented => hnew (hissued new hpresented)⟩

/-- A re-check presents its token and goes on. -/
theorem Spent.presents (hv : Spent v a) (hr : v.requests pid = some r) {token : Text}
    (htoken : r.stage.token? = some token) (reply : RefreshReply)
    (hpresented : a'.presented = (reply.book token a).presented)
    (htokens : a'.tokens = (reply.book token a).tokens) (hfly : l.request.stage.InFlight)
    (hheld : ∀ t, l.request.stage.token? = some t → a'.Unspent t) : Spent (v.put pid l) a' := by
  have hothers := hv.single.others hr (Stage.inFlight_of_token? htoken)
  obtain ⟨hnodup, hissued⟩ := (hv.held pid r hr token htoken).book hv.nodup hv.issued reply
  rw [← hpresented] at hnodup
  rw [← hpresented, ← htokens] at hissued
  exact .underway hothers hnodup hissued hfly hheld

/-- A re-check goes on, and the provider is not asked. -/
theorem Spent.goesOn (hv : Spent v a) (hr : v.requests pid = some r) (hstage : r.stage.InFlight)
    (hpresented : a'.presented = a.presented) (htokens : a'.tokens = a.tokens)
    (hfly : l.request.stage.InFlight)
    (hheld : ∀ t, l.request.stage.token? = some t → r.stage.token? = some t) :
    Spent (v.put pid l) a' := by
  have hothers := hv.single.others hr hstage
  refine .underway hothers (hpresented ▸ hv.nodup) ?_ hfly fun t ht => ?_
  · rw [hpresented, htokens]
    exact hv.issued
  · rw [Account.Unspent, htokens, hpresented]
    exact hv.held pid r hr t (hheld t ht)

theorem Spent.request (hv : Spent v a) (hacc : v.account = some a) (hacc' : l.account = some a')
    (hr : v.requests pid = some r) (hdb : ∀ db, act = .record db ∨ act = .revoke db → db = true)
    (hfresh : ∀ new b, act = .refresh (.issued new b) → new ≠ [] ∧ new ∉ a.tokens)
    (halone : ∀ db s, act = .claim db → v.row = some s →
      s.checkedAt < v.now - v.config.oidc.recheckInterval →
        v.requests.Others pid fun r => ¬ r.stage.InFlight)
    (h : LocalStep v.config v.now ⟨v.row, v.account, r⟩ act l) : Spent (v.put pid l) a' := by
  have hquiet (hidle : ¬ r.stage.InFlight) (hidle' : ¬ l.request.stage.InFlight)
      (haccount : l.account = v.account)
      (hrow : ∀ s', l.row = some s' → ∃ s, v.row = some s ∧ s'.refreshToken = s.refreshToken) :
      Spent (v.put pid l) a' := by
    cases hacc.symm.trans (haccount.symm.trans hacc')
    refine hv.quiet hr (iff_of_false hidle' hidle) ?_ hrow
    rw [Stage.token?_eq_none hidle, Stage.token?_eq_none hidle']
  have hsame : ∀ s', v.row = some s' → ∃ s, v.row = some s ∧ s'.refreshToken = s.refreshToken :=
    fun s hs => ⟨s, hs, rfl⟩
  cases h with
  | denied hstage => exact hquiet hstage id rfl hsame
  | selectLocal hstage | select hstage | missed hstage =>
      dsimp only at hstage
      have hidle : ¬ r.stage.InFlight := by rw [hstage]; exact id
      exact hquiet hidle id rfl hsame
  | tokenless hstage hrow =>
      dsimp only at hstage
      have hidle : ¬ r.stage.InFlight := by rw [hstage]; exact id
      refine hquiet hidle id rfl fun s' hs' => ?_
      cases hs'
      exact ⟨_, hrow, rfl⟩
  | @claim _ _ s token hstage hrow hdue htoken =>
      dsimp only at hstage
      have hidle : ¬ r.stage.InFlight := by rw [hstage]; exact id
      have hothers := halone true s rfl hrow hdue
      have hnone := (Slots.all_iff hr).mpr ⟨hidle, hothers⟩
      have hunspent := (hv.row s hrow hnone).2 token htoken
      cases hacc.symm.trans hacc'
      refine .underway hothers hv.nodup hv.issued trivial fun t ht => ?_
      cases ht
      exact hunspent
  | @refused _ token reply hstage =>
      dsimp only at hstage
      have htoken : r.stage.token? = some token := by rw [hstage]; rfl
      simp only [Local.conclude, Local.goto, Local.book, hacc, Option.map_some,
        Option.some.injEq] at hacc'
      subst hacc'
      refine hv.presents hr htoken reply rfl rfl trivial fun t ht => ?_
      cases ht
  | @refreshed _ token new idToken hstage =>
      dsimp only at hstage
      have htoken : r.stage.token? = some token := by rw [hstage]; rfl
      obtain ⟨hne, hnew⟩ := hfresh new idToken rfl
      simp only [Local.goto, Local.book, hacc, Option.map_some, Option.some.injEq] at hacc'
      subst hacc'
      refine hv.presents hr htoken (.issued new idToken) rfl rfl trivial fun t ht => ?_
      rw [Local.goto, Stage.token?, if_neg hne] at ht
      cases ht
      exact (hv.held pid r hr token htoken).issued hv.issued hne hnew
  | disclaimed hstage =>
      dsimp only at hstage
      have hfly : r.stage.InFlight := by rw [hstage]; trivial
      simp only [Local.conclude, Local.goto, hacc, Option.map_some, Option.some.injEq] at hacc'
      subst hacc'
      refine hv.goesOn hr hfly rfl rfl trivial fun t ht => ?_
      cases ht
  | verified hstage =>
      dsimp only at hstage
      have hfly : r.stage.InFlight := by rw [hstage]; trivial
      simp only [Local.verified, Local.goto, hacc, Option.map_some, Option.some.injEq] at hacc'
      subst hacc'
      exact hv.goesOn hr hfly rfl rfl trivial fun t ht => by rw [hstage]; exact ht
  | @record _ token _ db hstage =>
      dsimp only at hstage
      have htoken : r.stage.token? = some token := by rw [hstage]; rfl
      have hothers := hv.single.others hr (Stage.inFlight_of_token? htoken)
      cases hacc.symm.trans hacc'
      refine .finished hothers hv.nodup hv.issued id fun s' hs' => ?_
      rw [hdb db (Or.inl rfl)] at hs'
      obtain ⟨s, -, rfl⟩ := Option.map_eq_some_iff.mp hs'
      exact ⟨token, rfl, hv.held pid r hr token htoken⟩
  | @revoke db hstage =>
      dsimp only at hstage
      have hfly : r.stage.InFlight := by rw [hstage]; trivial
      cases hacc.symm.trans hacc'
      refine .finished (hv.single.others hr hfly) hv.nodup hv.issued id fun s' hs' => ?_
      rw [hdb db (Or.inr rfl)] at hs'
      cases hs'
  | @resolve _ groups db hstage =>
      dsimp only at hstage
      have hidle : ¬ r.stage.InFlight := by rw [hstage]; exact id
      refine hquiet hidle ?_ rfl hsame
      rw [Local.goto, resolveRole]
      split_ifs <;> exact id
  | cancel =>
      cases hacc.symm.trans hacc'
      exact hv.quiet hr Iff.rfl rfl hsame

end Request

/-! ## every move -/

theorem Spent.move {w : World} {i : SessionId} {a : Action} {v' : View}
    (hv : ∀ acc, (w.view i).account = some acc → Spent (w.view i) acc)
    (hnew : (w.view i).Unissued) (hfresh : FreshTokens w a) (hapart : RechecksApart w a)
    (h : ViewStep i (w.view i) a v') {acc : Account} (hacc : v'.account = some acc) :
    Spent v' acc := by
  cases h with
  | elsewhere =>
      obtain ⟨hnodup, hissued, hsingle, hheld, hrow⟩ := hv acc hacc
      exact ⟨hnodup, hissued, hsingle, hheld, hrow⟩
  | @start pid hnone =>
      obtain ⟨hnodup, hissued, hsingle, hheld, hrow⟩ := hv acc hacc
      have hidle : ¬ (newRequest (w.view i).now i (w.view i).account).stage.InFlight := id
      refine ⟨hnodup, hissued, hsingle.set_of_not hidle,
        hheld.set (Account.unspent_of_idle hidle), fun s hs hall => hrow s hs ?_⟩
      exact (Slots.others_of_none hnone).mp (Slots.all_set.mp hall).2
  | @request pid r act l hr hlocal =>
      obtain ⟨a₀, ha₀, -⟩ := hlocal.account_cases hacc
      obtain ⟨hr₀, hid⟩ := World.requests_view.mp hr
      subst hid
      refine (hv a₀ ha₀).request ha₀ hacc hr ?_ ?_ ?_ hlocal
      · rintro db (rfl | rfl) <;> exact hapart
      · rintro new b rfl
        exact ⟨hfresh.1, hfresh.2 r hr₀ a₀ ha₀⟩
      · rintro db s rfl hs hdue
        exact (World.others_iff hr).mpr (hapart r hr₀ s hs hdue)
  | removed =>
      obtain ⟨hnodup, hissued, hsingle, hheld, -⟩ := hv acc hacc
      exact ⟨hnodup, hissued, hsingle, hheld, nofun⟩
  | @login _ _ login hlogin hnone =>
      have hidle : (w.view i).requests.All fun r => ¬ r.stage.InFlight :=
        (hnew hnone).2.imp fun r hunserved => hunserved.1.not_inFlight
      cases hacc
      refine ⟨List.nodup_nil, nofun, Slots.atMostOne_of_all hidle,
        hidle.imp fun _ hidle => Account.unspent_of_idle hidle,
        fun s hs _ => ?_⟩
      cases hs
      by_cases hnil : login.refreshToken = []
      · simp [newSession, newAccount, hnil]
      · simp [newSession, newAccount, hnil, Account.Unspent]
  | restart =>
      obtain ⟨hnodup, hissued, -, -, hrow⟩ := hv acc hacc
      refine ⟨hnodup, hissued, Slots.atMostOne_of_all Slots.all_empty, Slots.all_empty,
        fun s hs _ => hrow s hs ?_⟩
      exact World.all_of_requests hapart i

/-- **Tokens are spent once**, in every run in which the re-checks of a
session come one after the other. -/
theorem tokens_spent_once {config : AuthConfig} {w : World}
    (h : Reachable World.step (fun w a => FreshTokens w a ∧ RechecksApart w a)
      (World.init config) w) (i : SessionId) : SpentOnce w i := by
  have hinv : ∀ i acc, (w.view i).account = some acc → Spent (w.view i) acc := by
    refine h.invariant (fun w => ∀ i acc, (w.view i).account = some acc →
      Spent (w.view i) acc) ?_ ?_
    · rintro i acc ⟨⟩
    · intro w a w' hw hspent hmeets hstep i acc hacc
      obtain ⟨hfresh, hapart⟩ := hmeets
      exact Spent.move (hspent i) (unissued_of_reachable hw i) hfresh hapart
        (World.step_view hstep i) hacc
  intro a ha
  refine ⟨(hinv i a ha).nodup, fun s hs hidle => ?_⟩
  exact ((hinv i a ha).row s hs (World.all_on_iff.mpr hidle)).1

/-- Alice's session is re-checked twice, one after the other. -/
theorem tokens_spent_once_alice : ∃ w,
    Reachable World.step (fun w a => FreshTokens w a ∧ RechecksApart w a)
      (World.init sampleConfig) w ∧
      (w.accounts [1]).map (·.presented) = some ["r1".toList, "r0".toList] ∧ SpentOnce w [1] := by
  obtain ⟨w, hw, hpresented⟩ := exists_reachable World.step
    (fun w a => FreshTokens w a ∧ RechecksApart w a) (World.init sampleConfig)
    (fun w => (w.accounts [1]).map (·.presented) = some ["r1".toList, "r0".toList])
    ([sampleLogin, .tick 14] ++ sampleClaim 0 ++
      [.request 0 (.refresh (.issued "r1".toList true)),
        .request 0 (.tokenClaims (some (sampleClaims "admins"))), .request 0 (.record true),
        .tick 11] ++ sampleClaim 1 ++ [.request 1 (.refresh (.issued "r2".toList true))])
    (by decide +kernel)
  exact ⟨w, hw, hpresented, tokens_spent_once hw [1]⟩

/-- A second re-check becomes due before the first is answered, and presents
the same token. -/
theorem slow_refresh_spends_twice : ∃ w,
    Reachable World.step (fun w a => StatementsSucceed a ∧ FreshTokens w a)
      (World.init sampleConfig) w ∧ ¬ SpentOnce w [1] := by
  obtain ⟨w, hw, hspent⟩ := exists_reachable World.step
    (fun w a => StatementsSucceed a ∧ FreshTokens w a) (World.init sampleConfig)
    (fun w => ¬ SpentOnce w [1])
    ([sampleLogin, .tick 14] ++ sampleClaim 0 ++ [.tick 11] ++ sampleClaim 1 ++
      [.request 0 (.refresh (.issued "r1".toList true)),
        .request 1 (.refresh (.issued "r2".toList true))])
    (by decide +kernel)
  exact ⟨w, hw, hspent⟩

end Cuttlefish
