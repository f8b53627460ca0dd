import Cuttlefish.SignIn

/-!
# Cuttlefish.SignIn.Safety

What the state cookie is for: nobody ends up in a session that was authorized
elsewhere (`signedIn_here`).

`Inv` says of every message on its way, every cookie in a jar and every row for
whom its random value was drawn.  A step only adds to what has been drawn and
said (`Grows`), so that each step has its own few cases to answer for; the one
that matters is the callback (`Inv.for_of_redeemed`).
-/

namespace Cuttlefish.SignIn

/-! ## what is said to whom -/

section Safety

variable {site : Site} {w w' : World}

/-- The provider signed this client in, a browser for a state that was drawn
for it. -/
def Authorization.For (w : World) (c : Client) (a : Authorization) : Prop :=
  a ∈ w.granted ∧ a.client = c ∧ ∀ b, c = .browser b → (c, a.state) ∈ w.drawn

/-- The claims of the authorization are those of an allowed user of this name. -/
def Authorization.Admits (site : Site) (a : Authorization) (user : Text) : Prop :=
  let new := identityFromClaims site.config.oidc a.claims
  new.user = user ∧ identityAllowed site.config.oidc new.user new.email = true

def Vouched (site : Site) (w : World) (c : Client) (user : Text) : Prop :=
  ∃ a : Authorization, a.For w c ∧ a.Admits site user

/-- Why a callback carries the state and the code it carries. -/
def Known (w : World) : Client → Text → Text → Prop
  | .browser b, state, code => w.Followed b state code ∨ (b, state) ∈ w.mentioned
  | .outsider, _, code => code ∈ w.tried

/-- A response sets what was drawn for its client. -/
structure ResponseOk (w : World) (c : Client) (r : Response) : Prop where
  state : ∀ k ∈ r.stateCookie, k = clearState ∨ (c, k.value) ∈ w.drawn
  session : ∀ k ∈ r.sessionCookie, k = clearSession ∨ (c, k.value) ∈ w.tokens

def StageOk (w : World) (c : Client) : Stage → Prop
  | .verified claims _ => ∃ a : Authorization, a.For w c ∧ a.claims = claims
  | .answered r => ResponseOk w c r
  | _ => True

structure RequestOk (w : World) (r : Request) : Prop where
  cookie : ∀ b state, r.client = .browser b → r.stateCookie = some state →
    (.browser b, state) ∈ w.drawn
  callback : ∀ state code, r.endpoint = .callback state code → Known w r.client state code
  stage : StageOk w r.client r.stage

/-- What holds of the server, the provider and every browser, however the
messages are delayed. -/
structure Inv (site : Site) (w : World) : Prop where
  jarState : ∀ b held, (w.jars b).oidcState = some held → (.browser b, held.value) ∈ w.drawn
  jarSession : ∀ b held, (w.jars b).session = some held → (.browser b, held.value) ∈ w.tokens
  learned : ∀ t ∈ w.learned, (.outsider, t) ∈ w.tokens
  holder : ∀ t ∈ w.tokens, ∀ t' ∈ w.tokens, t.2 = t'.2 → t.1 = t'.1
  codes : ∀ a ∈ w.granted, ∀ a' ∈ w.granted, a.code = a'.code → a = a'
  code_ne : ∀ a ∈ w.granted, a.code ≠ []
  unmentioned : ∀ m ∈ w.mentioned, (.browser m.1, m.2) ∉ w.drawn
  tried : ∀ a ∈ w.granted, a.code ∈ w.tried → a.client = .outsider
  requests : ∀ r ∈ w.requests, RequestOk w r
  rows : ∀ t s, w.sessions t = some s → ∃ c, (c, t) ∈ w.tokens ∧ Vouched site w c s.username

/-! ## what has been said stays said -/

structure Grows (w w' : World) : Prop where
  granted : w.granted ⊆ w'.granted
  refused : w.refused ⊆ w'.refused
  drawn : w.drawn ⊆ w'.drawn
  tokens : w.tokens ⊆ w'.tokens
  mentioned : w.mentioned ⊆ w'.mentioned
  tried : w.tried ⊆ w'.tried

theorem Grows.of_eq (hgranted : w.granted = w'.granted) (hrefused : w.refused = w'.refused)
    (hdrawn : w.drawn = w'.drawn) (htokens : w.tokens = w'.tokens)
    (hmentioned : w.mentioned = w'.mentioned) (htried : w.tried = w'.tried) : Grows w w' where
  granted := by rw [hgranted]; exact fun _ h => h
  refused := by rw [hrefused]; exact fun _ h => h
  drawn := by rw [hdrawn]; exact fun _ h => h
  tokens := by rw [htokens]; exact fun _ h => h
  mentioned := by rw [hmentioned]; exact fun _ h => h
  tried := by rw [htried]; exact fun _ h => h

theorem Authorization.For.grows {a : Authorization} {c : Client} (h : a.For w c)
    (hgrows : Grows w w') : a.For w' c :=
  ⟨hgrows.granted h.1, h.2.1, fun b hb => hgrows.drawn (h.2.2 b hb)⟩

theorem Vouched.grows {c : Client} {user : Text} (h : Vouched site w c user)
    (hgrows : Grows w w') : Vouched site w' c user := by
  obtain ⟨a, hfor, hadmits⟩ := h
  exact ⟨a, hfor.grows hgrows, hadmits⟩

theorem World.Followed.grows {b : Nat} {state code : Text} (h : w.Followed b state code)
    (hgrows : Grows w w') : w'.Followed b state code := by
  rcases h with ⟨a, ha, hfollowed⟩ | ⟨hcode, hrefused⟩
  · exact Or.inl ⟨a, hgrows.granted ha, hfollowed⟩
  · exact Or.inr ⟨hcode, hgrows.refused hrefused⟩

theorem Known.grows {c : Client} {state code : Text} (h : Known w c state code)
    (hgrows : Grows w w') : Known w' c state code := by
  cases c with
  | outsider => exact hgrows.tried h
  | browser b => exact h.imp (·.grows hgrows) fun hmentioned => hgrows.mentioned hmentioned

theorem StageOk.grows {c : Client} {stage : Stage} (h : StageOk w c stage)
    (hgrows : Grows w w') : StageOk w' c stage := by
  cases stage with
  | verified claims refreshToken =>
      obtain ⟨a, hfor, hclaims⟩ := h
      exact ⟨a, hfor.grows hgrows, hclaims⟩
  | answered r =>
      exact ⟨fun k hk => (h.state k hk).imp_right fun hd => hgrows.drawn hd,
        fun k hk => (h.session k hk).imp_right fun ht => hgrows.tokens ht⟩
  | _ => trivial

theorem RequestOk.grows {r : Request} (h : RequestOk w r) (hgrows : Grows w w') :
    RequestOk w' r where
  cookie b state hb hstate := hgrows.drawn (h.cookie b state hb hstate)
  callback state code hcallback := (h.callback state code hcallback).grows hgrows
  stage := h.stage.grows hgrows

/-- One request moves on. -/
theorem forall_requests_put {i : Nat} {r : Request} {stage : Stage}
    (h : ∀ r ∈ w.requests, RequestOk w r) (hr : w.requests[i]? = some r) (hgrows : Grows w w')
    (hstage : StageOk w' r.client stage) :
    ∀ r' ∈ w.requests.set i { r with stage := stage }, RequestOk w' r' := by
  intro r' hr'
  cases List.mem_or_eq_of_mem_set hr' with
  | inl hold => exact (h r' hold).grows hgrows
  | inr hmoved =>
      have hok := (h r (List.mem_of_getElem? hr)).grows hgrows
      exact hmoved ▸ ⟨hok.cookie, hok.callback, hstage⟩

/-- One more request comes in. -/
theorem forall_requests_append {r : Request} (h : ∀ r ∈ w.requests, RequestOk w r)
    (hgrows : Grows w w') (hr : RequestOk w' r) :
    ∀ r' ∈ w.requests ++ [r], RequestOk w' r' := by
  intro r' hr'
  cases List.mem_append.mp hr' with
  | inl hold => exact (h r' hold).grows hgrows
  | inr hnew => exact List.mem_singleton.mp hnew ▸ hr

/-- Rows that were there before, whatever a re-check did to them. -/
theorem forall_rows {sessions : Text → Option Session}
    (h : ∀ t s, w.sessions t = some s → ∃ c, (c, t) ∈ w.tokens ∧ Vouched site w c s.username)
    (hgrows : Grows w w')
    (hold : ∀ t s, sessions t = some s → ∃ s₀, w.sessions t = some s₀ ∧ s₀.username = s.username) :
    ∀ t s, sessions t = some s → ∃ c, (c, t) ∈ w'.tokens ∧ Vouched site w' c s.username := by
  intro t s hs
  obtain ⟨s₀, hs₀, huser⟩ := hold t s hs
  obtain ⟨c, hc, hvouched⟩ := h t s₀ hs₀
  exact ⟨c, hgrows.tokens hc, huser ▸ hvouched.grows hgrows⟩

/-! ## one step -/

theorem sentCookie_eq_some {now : Int} {https : Bool} {held : Option Held} {v : Text}
    (h : sentCookie now https held = some v) : ∃ k, held = some k ∧ k.value = v := by
  obtain ⟨k, hk, hv⟩ := Option.map_eq_some_iff.mp h
  exact ⟨k, (Option.filter_eq_some_iff.mp hk).1, hv⟩

theorem store_eq_some {c : SetCookie} {now : Int} {https : Bool} {old : Option Held} {k : Held}
    (h : c.store now https old = some k) : old = some k ∨ (0 ≤ c.maxAge ∧ k.value = c.value) := by
  unfold SetCookie.store at h
  split_ifs at h with hplain hdelete
  · exact Or.inl h
  · cases h
    exact Or.inr ⟨by omega, rfl⟩
  · cases h
    exact Or.inr ⟨by omega, rfl⟩

theorem Inv.visit (h : Inv site w) {b : Nat} {endpoint : Endpoint} {c : Connection}
    (hmeets : Unguessed w (.visit b endpoint c)) : Inv site (w.visit b endpoint c) := by
  have hgrows : Grows w (w.visit b endpoint c) := by
    refine ⟨fun _ ha => ha, fun _ hf => hf, fun _ hd => hd, fun _ ht => ht, fun m hm => ?_,
      fun _ ht => ht⟩
    cases endpoint with
    | callback state code =>
        dsimp only [World.visit, World.mention]
        split_ifs
        · exact hm
        · exact List.mem_cons_of_mem _ hm
    | start => exact hm
    | logout => exact hm
  refine ⟨h.jarState, h.jarSession, h.learned, h.holder, h.codes, h.code_ne, ?_, h.tried, ?_, ?_⟩
  · intro m hm
    cases endpoint with
    | callback state code =>
        dsimp only [World.visit, World.mention] at hm
        split_ifs at hm with hfollowed
        · exact h.unmentioned m hm
        · cases List.mem_cons.mp hm with
          | inl hnew =>
              rw [hnew]
              exact hmeets.resolve_left hfollowed
          | inr hold => exact h.unmentioned m hold
    | start => exact h.unmentioned m hm
    | logout => exact h.unmentioned m hm
  · refine forall_requests_append h.requests hgrows ⟨?_, ?_, trivial⟩
    · intro b' state hb hstate
      cases hb
      obtain ⟨k, hk, rfl⟩ := sentCookie_eq_some hstate
      exact h.jarState b k hk
    · intro state code hcallback
      dsimp only at hcallback
      subst hcallback
      by_cases hfollowed : w.Followed b state code
      · exact Or.inl hfollowed
      · refine Or.inr ?_
        dsimp only [World.visit, World.mention]
        rw [if_neg hfollowed]
        exact List.mem_cons_self
  · exact forall_rows h.rows hgrows fun t s hs => ⟨s, hs, rfl⟩

theorem Inv.forge (h : Inv site w) {endpoint : Endpoint} {c : Connection}
    {stateCookie cookie : Option Text} (hmeets : Unguessed w (.forge endpoint c stateCookie cookie)) :
    Inv site (w.forge endpoint c stateCookie cookie) := by
  have hgrows : Grows w (w.forge endpoint c stateCookie cookie) := by
    refine ⟨fun _ ha => ha, fun _ hf => hf, fun _ hd => hd, fun _ ht => ht, fun _ hm => hm,
      fun k hk => ?_⟩
    cases endpoint with
    | callback state code => exact List.mem_cons_of_mem _ hk
    | start => exact hk
    | logout => exact hk
  refine ⟨h.jarState, h.jarSession, h.learned, h.holder, h.codes, h.code_ne, h.unmentioned, ?_, ?_,
    ?_⟩
  · intro a ha htried
    cases endpoint with
    | callback state code =>
        cases List.mem_cons.mp htried with
        | inl hnew => exact hmeets a ha hnew
        | inr hold => exact h.tried a ha hold
    | start => exact h.tried a ha htried
    | logout => exact h.tried a ha htried
  · refine forall_requests_append h.requests hgrows ⟨nofun, fun state code hcallback => ?_, trivial⟩
    dsimp only at hcallback
    subst hcallback
    exact List.mem_cons_self
  · exact forall_rows h.rows hgrows fun t s hs => ⟨s, hs, rfl⟩

theorem Inv.authorize (h : Inv site w) {a : Authorization} (hmeets : Unguessed w (.authorize a)) :
    Inv site { w with granted := a :: w.granted } := by
  have hgrows : Grows w { w with granted := a :: w.granted } :=
    ⟨fun _ ha => List.mem_cons_of_mem _ ha, fun _ hf => hf, fun _ hd => hd, fun _ ht => ht,
      fun _ hm => hm, fun _ ht => ht⟩
  obtain ⟨hne, honce, huntried⟩ := hmeets
  refine ⟨h.jarState, h.jarSession, h.learned, h.holder, ?_, ?_, h.unmentioned, ?_,
    fun r hr => (h.requests r hr).grows hgrows,
    forall_rows h.rows hgrows fun t s hs => ⟨s, hs, rfl⟩⟩
  · intro a₁ h₁ a₂ h₂ hcode
    rcases List.mem_cons.mp h₁ with rfl | hold₁ <;> rcases List.mem_cons.mp h₂ with rfl | hold₂
    · rfl
    · exact absurd hcode.symm (honce a₂ hold₂)
    · exact absurd hcode (honce a₁ hold₁)
    · exact h.codes a₁ hold₁ a₂ hold₂ hcode
  · exact List.forall_mem_cons.mpr ⟨hne, h.code_ne⟩
  · intro a' ha' htried
    rcases List.mem_cons.mp ha' with rfl | hold
    · by_contra hbrowser
      exact huntried hbrowser htried
    · exact h.tried a' hold htried

theorem Inv.refuse (h : Inv site w) (client : Client) (state : Text) :
    Inv site { w with refused := (client, state) :: w.refused } := by
  have hgrows : Grows w { w with refused := (client, state) :: w.refused } :=
    ⟨fun _ ha => ha, fun _ hf => List.mem_cons_of_mem _ hf, fun _ hd => hd, fun _ ht => ht,
      fun _ hm => hm, fun _ ht => ht⟩
  exact ⟨h.jarState, h.jarSession, h.learned, h.holder, h.codes, h.code_ne, h.unmentioned, h.tried,
    fun r hr => (h.requests r hr).grows hgrows,
    forall_rows h.rows hgrows fun t s hs => ⟨s, hs, rfl⟩⟩

theorem Inv.start (h : Inv site w) {i : Nat} {r : Request} {state : Option Text}
    (hr : w.requests[i]? = some r) (hmeets : Unguessed w (.start i state))
    (hstep : w.start site i r state = some w') : Inv site w' := by
  unfold World.start at hstep
  split at hstep
  next =>
      cases hstep
      have hgrows : Grows w { w.put i r (.answered (handleOIDCStart site r.connection state)) with
          drawn := (state.map fun s => (r.client, s)).toList ++ w.drawn } :=
        ⟨fun _ ha => ha, fun _ hf => hf, fun _ hd => List.mem_append_right _ hd, fun _ ht => ht,
          fun _ hm => hm, fun _ ht => ht⟩
      refine ⟨fun b held hb => hgrows.drawn (h.jarState b held hb), h.jarSession, h.learned,
        h.holder, h.codes, h.code_ne, ?_, h.tried, forall_requests_put h.requests hr hgrows ?_,
        forall_rows h.rows hgrows fun t s hs => ⟨s, hs, rfl⟩⟩
      · intro m hm hdrawn
        cases List.mem_append.mp hdrawn with
        | inr hold => exact h.unmentioned m hm hold
        | inl hnew =>
            cases state with
            | none => contradiction
            | some s =>
                have heq : (Client.browser m.1, m.2) = (r.client, s) := List.mem_singleton.mp hnew
                obtain ⟨hclient, hstate⟩ := Prod.mk.inj heq
                exact hmeets r (by rw [hr]; rfl) m hm hclient.symm hstate
      · cases state with
        | none => exact ⟨nofun, nofun⟩
        | some s =>
            refine ⟨fun k hk => Or.inr ?_, nofun⟩
            cases hk
            exact List.mem_cons_self
  next => contradiction

/-- **The callback** goes on for a browser only with a code that the provider
issued in that browser, for a state that was drawn for it. -/
theorem Inv.for_of_redeemed (h : Inv site w) {r : Request} {state code : Text} {a : Authorization}
    (hr : RequestOk w r) (hendpoint : r.endpoint = .callback state code)
    (hcookie : r.stateCookie = some state) (ha : a ∈ w.granted) (hcode : a.code = code) :
    a.For w r.client := by
  have hknown := hr.callback state code hendpoint
  cases hclient : r.client with
  | outsider =>
      rw [hclient] at hknown
      exact ⟨ha, h.tried a ha (hcode ▸ hknown), nofun⟩
  | browser b =>
      rw [hclient] at hknown
      have hdrawn := hr.cookie b state hclient hcookie
      rcases hknown with (⟨a', ha', hb, hstate, hcode'⟩ | ⟨hempty, -⟩) | hmentioned
      · have hsame : a = a' := h.codes a ha a' ha' (hcode.trans hcode'.symm)
        subst hsame
        refine ⟨ha, hb, fun b' hb' => ?_⟩
        cases hb'
        exact hstate ▸ hdrawn
      · exact absurd (hcode.trans hempty) (h.code_ne a ha)
      · exact absurd hdrawn (h.unmentioned (b, state) hmentioned)

/-- One request moves on, and nothing else happens. -/
theorem Inv.put (h : Inv site w) {i : Nat} {r : Request} {stage : Stage}
    (hr : w.requests[i]? = some r) (hstage : StageOk w r.client stage) :
    Inv site (w.put i r stage) where
  jarState := h.jarState
  jarSession := h.jarSession
  learned := h.learned
  holder := h.holder
  codes := h.codes
  code_ne := h.code_ne
  unmentioned := h.unmentioned
  tried := h.tried
  requests :=
    forall_requests_put h.requests hr (.of_eq rfl rfl rfl rfl rfl rfl)
      (hstage.grows (.of_eq rfl rfl rfl rfl rfl rfl))
  rows := forall_rows h.rows (.of_eq rfl rfl rfl rfl rfl rfl) fun _ s hs => ⟨s, hs, rfl⟩

/-- An answer that sets no session. -/
theorem responseOk_refusal (w : World) (c : Client) {r : Response} (h : r.sessionCookie = none) :
    ResponseOk w c r.clearingState where
  state k hk := by
    cases hk
    exact Or.inl rfl
  session k hk := by
    rw [show r.clearingState.sessionCookie = r.sessionCookie from rfl, h] at hk
    contradiction

theorem Exchange.sessionCookie_refusal {reply : Exchange} {r : Response}
    (h : reply.refusal = some r) : r.sessionCookie = none := by
  cases reply <;> cases h <;> rfl

theorem Inv.callback (h : Inv site w) {i : Nat} {r : Request} {reply : Exchange}
    (hr : w.requests[i]? = some r) (hstep : w.callback i r reply = some w') : Inv site w' := by
  have hrequest := h.requests r (List.mem_of_getElem? hr)
  unfold World.callback at hstep
  split at hstep
  next state code hendpoint hstage =>
      split_ifs at hstep with hcookie
      · cases hstep
        have hok : ResponseOk w r.client (respondError 400 "invalid state".toList) := ⟨nofun, nofun⟩
        exact h.put hr hok
      · split at hstep
        next refreshToken =>
            obtain ⟨a, hfind, hstep⟩ := Option.map_eq_some_iff.mp hstep
            cases hstep
            have ha := List.mem_of_find?_eq_some hfind
            have hcode : a.code = code := by
              have hp := List.find?_some hfind
              simp only [decide_eq_true_eq] at hp
              exact hp.1
            have hfor := h.for_of_redeemed hrequest hendpoint (not_not.mp hcookie) ha hcode
            have hok : StageOk w r.client (.verified a.claims refreshToken) := ⟨a, hfor, rfl⟩
            have hput := h.put hr hok
            exact ⟨hput.jarState, hput.jarSession, hput.learned, hput.holder, hput.codes,
              hput.code_ne, hput.unmentioned, hput.tried,
              fun r' hr' => (hput.requests r' hr').grows (.of_eq rfl rfl rfl rfl rfl rfl),
              forall_rows hput.rows (.of_eq rfl rfl rfl rfl rfl rfl) fun t s hs => ⟨s, hs, rfl⟩⟩
        next =>
            obtain ⟨resp, hrefusal, hstep⟩ := Option.map_eq_some_iff.mp hstep
            cases hstep
            have hnone := Exchange.sessionCookie_refusal hrefusal
            have hok : StageOk w r.client (.answered resp.clearingState) :=
              responseOk_refusal w r.client hnone
            exact h.put hr hok
  next => contradiction

/-- A row that the sweep left. -/
theorem sweep_eq_some {sweeps : Bool} {t : Text} {s : Session} (h : w.sweep sweeps t = some s) :
    w.sessions t = some s := by
  unfold World.sweep at h
  split_ifs at h
  · exact (Option.filter_eq_some_iff.mp h).1
  · exact h

theorem Inv.finish (h : Inv site w) {i : Nat} {r : Request} {token : Option Text}
    {sweeps inserted : Bool} {elapsed : Nat} (hr : w.requests[i]? = some r)
    (hmeets : Unguessed w (.finish i token sweeps inserted elapsed))
    (hstep : w.finish site i r token sweeps inserted elapsed = some w') : Inv site w' := by
  have hrequest := h.requests r (List.mem_of_getElem? hr)
  unfold World.finish at hstep
  split at hstep
  next claims refreshToken hstage =>
      have hverified : StageOk w r.client (.verified claims refreshToken) :=
        hstage ▸ hrequest.stage
      obtain ⟨a, hfor, rfl⟩ := hverified
      split at hstep
      next =>
          cases hstep
          have hok : StageOk w r.client
              (.answered (respondError 403 "user not allowed".toList).clearingState) :=
            responseOk_refusal w r.client rfl
          exact h.put hr hok
      next =>
          cases hstep
          have hok : StageOk w r.client (.answered sessionError.clearingState) :=
            responseOk_refusal w r.client rfl
          exact h.put hr hok
      next login token hauth =>
          have hadmits : a.Admits site login.user := by
            simp only [authenticate] at hauth
            split_ifs at hauth with hallowed
            cases hauth
            exact ⟨rfl, hallowed.2⟩
          cases hstep
          have hfresh : ∀ t ∈ w.tokens, t.2 ≠ token := hmeets
          -- what is drawn is on record, whether or not its row is
          generalize hresp : (if inserted then signedIn site r.connection w.now elapsed token _
            else sessionError) = resp
          have hgrows : Grows w { w.put i r (.answered resp.clearingState) with
              sessions := if inserted then Function.update (w.sweep sweeps) token
                (some (newSession site.config w.now login)) else w.sweep sweeps
              tokens := (r.client, token) :: w.tokens } :=
            ⟨fun _ h => h, fun _ h => h, fun _ h => h, fun _ h => List.mem_cons_of_mem _ h, fun _ h => h,
              fun _ h => h⟩
          refine ⟨h.jarState, fun b held hb => hgrows.tokens (h.jarSession b held hb),
            fun t ht => hgrows.tokens (h.learned t ht), ?_, h.codes, h.code_ne, h.unmentioned, h.tried,
            forall_requests_put h.requests hr hgrows ⟨?_, ?_⟩, ?_⟩
          · intro t₁ h₁ t₂ h₂ hsame
            rcases List.mem_cons.mp h₁ with rfl | hold₁ <;>
              rcases List.mem_cons.mp h₂ with rfl | hold₂
            · rfl
            · exact absurd hsame.symm (hfresh t₂ hold₂)
            · exact absurd hsame (hfresh t₁ hold₁)
            · exact h.holder t₁ hold₁ t₂ hold₂ hsame
          · intro k hk
            cases hk
            exact Or.inl rfl
          · intro k hk
            subst hresp
            cases inserted with
            | false => contradiction
            | true =>
                cases hk
                exact Or.inr List.mem_cons_self
          · intro t s hs
            have hold : w.sweep sweeps t = some s → _ := fun hswept =>
              forall_rows h.rows hgrows (fun t s hs => ⟨s, hs, rfl⟩) t s (sweep_eq_some hswept)
            cases inserted with
            | false => exact hold hs
            | true =>
                by_cases ht : t = token
                · subst ht
                  dsimp only at hs
                  rw [if_pos rfl, Function.update_self] at hs
                  cases hs
                  exact ⟨r.client, List.mem_cons_self, a, hfor.grows hgrows, hadmits⟩
                · dsimp only at hs
                  rw [if_pos rfl, Function.update_of_ne ht] at hs
                  exact hold hs
  next => contradiction

/-- Rows go, or keep their user. -/
theorem Inv.rowsChange (h : Inv site w) {sessions : Text → Option Session}
    (hold : ∀ t s, sessions t = some s → ∃ s₀, w.sessions t = some s₀ ∧ s₀.username = s.username) :
    Inv site { w with sessions := sessions } where
  jarState := h.jarState
  jarSession := h.jarSession
  learned := h.learned
  holder := h.holder
  codes := h.codes
  code_ne := h.code_ne
  unmentioned := h.unmentioned
  tried := h.tried
  requests r hr := (h.requests r hr).grows (.of_eq rfl rfl rfl rfl rfl rfl)
  rows := forall_rows h.rows (.of_eq rfl rfl rfl rfl rfl rfl) hold

theorem exists_row_update {token : Text} {row : Option Session}
    (hrow : ∀ s ∈ row, ∃ s₀, w.sessions token = some s₀ ∧ s₀.username = s.username) (t : Text)
    (s : Session) (h : Function.update w.sessions token row t = some s) :
    ∃ s₀, w.sessions t = some s₀ ∧ s₀.username = s.username := by
  by_cases ht : t = token
  · subst ht
    rw [Function.update_self] at h
    exact hrow s h
  · rw [Function.update_of_ne ht] at h
    exact ⟨s, h, rfl⟩

theorem exists_row_erase {token : Text} (t : Text) (s : Session)
    (h : Function.update w.sessions token none t = some s) :
    ∃ s₀, w.sessions t = some s₀ ∧ s₀.username = s.username := by
  have hnone : ∀ s ∈ (none : Option Session), ∃ s₀, w.sessions token = some s₀ ∧
      s₀.username = s.username := nofun
  exact exists_row_update hnone t s h

theorem Inv.logout (h : Inv site w) {i : Nat} {r : Request} {deleted : Bool}
    (hr : w.requests[i]? = some r) (hstep : w.logout i r deleted = some w') : Inv site w' := by
  unfold World.logout at hstep
  split at hstep
  next =>
      cases hstep
      have hok : StageOk w r.client (.answered handleLogout) :=
        ⟨nofun, fun k hk => by cases hk; exact Or.inl rfl⟩
      refine (h.put hr hok).rowsChange fun t s hs => ?_
      cases hcookie : r.sessionCookie with
      | none =>
          rw [hcookie] at hs
          exact ⟨s, hs, rfl⟩
      | some token =>
          rw [hcookie] at hs
          dsimp only at hs
          split_ifs at hs
          · exact exists_row_erase t s hs
          · exact ⟨s, hs, rfl⟩
  next => contradiction

/-- A jar keeps what it has, or takes what the response sets. -/
theorem mem_store {c : Client} {r : Response} (hok : ResponseOk w c r) {jar : Jar} {now : Int}
    {https : Bool} {held : Held} :
    ((jar.store now https r).oidcState = some held →
      jar.oidcState = some held ∨ (c, held.value) ∈ w.drawn) ∧
    ((jar.store now https r).session = some held →
      jar.session = some held ∨ (c, held.value) ∈ w.tokens) := by
  constructor
  · intro h
    dsimp only [Jar.store] at h
    cases hcookie : r.stateCookie with
    | none =>
        rw [hcookie] at h
        exact Or.inl h
    | some k =>
        rw [hcookie] at h
        rcases store_eq_some h with hold | ⟨hage, hvalue⟩
        · exact Or.inl hold
        · rcases hok.state k hcookie with rfl | hdrawn
          · exact absurd hage (by decide)
          · exact Or.inr (hvalue ▸ hdrawn)
  · intro h
    dsimp only [Jar.store] at h
    cases hcookie : r.sessionCookie with
    | none =>
        rw [hcookie] at h
        exact Or.inl h
    | some k =>
        rw [hcookie] at h
        rcases store_eq_some h with hold | ⟨hage, hvalue⟩
        · exact Or.inl hold
        · rcases hok.session k hcookie with rfl | htoken
          · exact absurd hage (by decide)
          · exact Or.inr (hvalue ▸ htoken)

theorem mem_tokens_of_mem_response {c : Client} {r : Response} (hok : ResponseOk w c r) {t : Text}
    (h : t ∈ r.tokens) : (c, t) ∈ w.tokens := by
  obtain ⟨hmem, hne⟩ := List.mem_filter.mp h
  obtain ⟨k, hk, rfl⟩ := Option.map_eq_some_iff.mp (Option.mem_toList.mp hmem)
  rcases hok.session k hk with rfl | htoken
  · exact absurd hne (by decide)
  · exact htoken

theorem Inv.deliver (h : Inv site w) {i : Nat} {r : Request} (hr : w.requests[i]? = some r)
    (hstep : w.deliver i r = some w') : Inv site w' := by
  have hrequest := h.requests r (List.mem_of_getElem? hr)
  unfold World.deliver at hstep
  split at hstep
  next resp hstage =>
      have hok : ResponseOk w r.client resp := by
        have hstageOk := hrequest.stage
        rw [hstage] at hstageOk
        exact hstageOk
      have hput : Inv site (w.put i r .closed) := h.put hr trivial
      cases hclient : r.client with
      | outsider =>
          rw [hclient] at hstep hok
          cases hstep
          refine ⟨hput.jarState, hput.jarSession, fun t ht => ?_, hput.holder, hput.codes,
            hput.code_ne, hput.unmentioned, hput.tried,
            fun r' hr' => (hput.requests r' hr').grows (.of_eq rfl rfl rfl rfl rfl rfl),
            forall_rows hput.rows (.of_eq rfl rfl rfl rfl rfl rfl) fun _ s hs => ⟨s, hs, rfl⟩⟩
          cases List.mem_append.mp ht with
          | inl hnew => exact mem_tokens_of_mem_response hok hnew
          | inr hold => exact h.learned t hold
      | browser b =>
          rw [hclient] at hstep hok
          cases hstep
          refine ⟨fun b' held hheld => ?_, fun b' held hheld => ?_, hput.learned, hput.holder,
            hput.codes, hput.code_ne, hput.unmentioned, hput.tried,
            fun r' hr' => (hput.requests r' hr').grows (.of_eq rfl rfl rfl rfl rfl rfl),
            forall_rows hput.rows (.of_eq rfl rfl rfl rfl rfl rfl) fun _ s hs => ⟨s, hs, rfl⟩⟩
          · by_cases hb : b' = b
            · subst hb
              dsimp only at hheld
              rw [Function.update_self] at hheld
              exact ((mem_store hok).1 hheld).elim (h.jarState b' held) id
            · dsimp only at hheld
              rw [Function.update_of_ne hb] at hheld
              exact h.jarState b' held hheld
          · by_cases hb : b' = b
            · subst hb
              dsimp only at hheld
              rw [Function.update_self] at hheld
              exact ((mem_store hok).2 hheld).elim (h.jarSession b' held) id
            · dsimp only at hheld
              rw [Function.update_of_ne hb] at hheld
              exact h.jarSession b' held hheld
  next => contradiction

/-- **Every step keeps the invariant.** -/
theorem Inv.step (h : Inv site w) {act : Action} (hmeets : Unguessed w act)
    (hstep : w.step site act = some w') : Inv site w' := by
  cases act with
  | tick n =>
      cases hstep
      exact ⟨h.jarState, h.jarSession, h.learned, h.holder, h.codes, h.code_ne, h.unmentioned, h.tried,
        fun r hr => (h.requests r hr).grows (.of_eq rfl rfl rfl rfl rfl rfl),
        forall_rows h.rows (.of_eq rfl rfl rfl rfl rfl rfl) fun _ s hs => ⟨s, hs, rfl⟩⟩
  | visit b endpoint c =>
      cases hstep
      exact h.visit hmeets
  | forge endpoint c stateCookie cookie =>
      cases hstep
      exact h.forge hmeets
  | authorize a =>
      cases hstep
      exact h.authorize hmeets
  | refuse client state =>
      cases hstep
      exact h.refuse client state
  | start i state =>
      obtain ⟨r, hr, hstep⟩ := Option.bind_eq_some_iff.mp hstep
      exact h.start hr hmeets hstep
  | callback i reply =>
      obtain ⟨r, hr, hstep⟩ := Option.bind_eq_some_iff.mp hstep
      exact h.callback hr hstep
  | finish i token sweeps inserted elapsed =>
      obtain ⟨r, hr, hstep⟩ := Option.bind_eq_some_iff.mp hstep
      exact h.finish hr hmeets hstep
  | logout i deleted =>
      obtain ⟨r, hr, hstep⟩ := Option.bind_eq_some_iff.mp hstep
      exact h.logout hr hstep
  | deliver i =>
      obtain ⟨r, hr, hstep⟩ := Option.bind_eq_some_iff.mp hstep
      exact h.deliver hr hstep
  | recheck token groups refreshToken =>
      cases hstep
      refine h.rowsChange (exists_row_update fun s hs => ?_)
      obtain ⟨s₀, hs₀, rfl⟩ := Option.map_eq_some_iff.mp hs
      exact ⟨s₀, hs₀, rfl⟩
  | revoke token =>
      cases hstep
      exact h.rowsChange exists_row_erase

theorem inv_init : Inv site {} where
  jarState _ _ hheld := by cases hheld
  jarSession _ _ hheld := by cases hheld
  learned _ ht := by cases ht
  holder _ ht := by cases ht
  codes _ ha := by cases ha
  code_ne _ ha := by cases ha
  unmentioned _ hm := by cases hm
  tried _ ha := by cases ha
  requests _ hr := by cases hr
  rows _ _ hs := by cases hs

end Safety

/-! ## runs -/

/-- **A session belongs to whoever signed in where it is used.**  However the
requests of any browsers and of an outsider cross, are delayed, repeated or
provoked by links, the session in a browser is that of a user whom the
provider signed in in that browser, for a state that was drawn for it, and
whom the configuration allows; a session the outsider can use is that of a
user it signed in as itself; and no session is in two places. -/
theorem signedIn_here (site : Site) {w : World}
    (h : Reachable (World.step site) Unguessed {} w) :
    (∀ b held s, (w.jars b).session = some held → w.sessions held.value = some s →
      ∃ a ∈ w.granted, a.client = .browser b ∧ (.browser b, a.state) ∈ w.drawn ∧
        a.Admits site s.username) ∧
    (∀ t s, t ∈ w.learned → w.sessions t = some s →
      ∃ a ∈ w.granted, a.client = .outsider ∧ a.Admits site s.username) ∧
    ∀ b held, (w.jars b).session = some held → held.value ∉ w.learned ∧
      ∀ b' held', (w.jars b').session = some held' → held'.value = held.value → b' = b := by
  have hinv : Inv site w := h.invariant (Inv site) inv_init fun _ hi hmeets hs => hi.step hmeets hs
  refine ⟨fun b held s hheld hs => ?_, fun t s ht hs => ?_, fun b held hheld => ⟨fun ht => ?_, ?_⟩⟩
  · obtain ⟨c, hc, a, hfor, hadmits⟩ := hinv.rows held.value s hs
    have hclient : c = .browser b := hinv.holder _ hc _ (hinv.jarSession b held hheld) rfl
    subst hclient
    exact ⟨a, hfor.1, hfor.2.1, hfor.2.2 b rfl, hadmits⟩
  · obtain ⟨c, hc, a, hfor, hadmits⟩ := hinv.rows t s hs
    have hclient : c = .outsider := hinv.holder _ hc _ (hinv.learned t ht) rfl
    subst hclient
    exact ⟨a, hfor.1, hfor.2.1, hadmits⟩
  · have hclient := hinv.holder _ (hinv.jarSession b held hheld) _ (hinv.learned _ ht) rfl
    contradiction
  · intro b' held' hheld' hsame
    have hclient := hinv.holder _ (hinv.jarSession b' held' hheld') _ (hinv.jarSession b held hheld)
      hsame
    cases hclient
    rfl

/-! ### an instance -/

def sampleSite : Site where
  config := { oidc := { issuer := "https://idp".toList, adminGroups := ["ops".toList] } }
  allowInsecureHttp := false
  lower := id
  oidc := by decide

def tls : Connection := ⟨true, [], true⟩

def alice : Claims := [("email".toList, .text "alice@corp".toList)]

def mallory : Claims := [("email".toList, .text "mallory@corp".toList)]

/-- Alice signs in, at her second attempt.  Meanwhile Mallory signs in at the
provider and makes her browser open the callback with the code from there. -/
def sampleRun : List Action :=
  [.visit 0 .start tls, .start 0 (some "s0".toList), .deliver 0,
    .refuse (.browser 0) "s0".toList, .visit 0 (.callback "s0".toList []) tls,
    .callback 1 .failed, .deliver 1,
    .visit 0 .start tls, .start 2 (some "s1".toList), .deliver 2,
    .forge .start tls none none, .start 3 (some "s2".toList), .deliver 3,
    .authorize ⟨.outsider, "s2".toList, "c2".toList, mallory⟩,
    .visit 0 (.callback "s2".toList "c2".toList) tls, .callback 4 (.verified []), .deliver 4,
    .authorize ⟨.browser 0, "s1".toList, "c1".toList, alice⟩,
    .visit 0 (.callback "s1".toList "c1".toList) tls, .callback 5 (.verified "r".toList),
    .finish 5 (some "t1".toList) true true 2500000, .deliver 5]

/-- Alice ends up in a session of her own. -/
theorem exists_sampleRun : ∃ w : World, Reachable (World.step sampleSite) Unguessed {} w ∧
    (w.jars 0).session = some ⟨"t1".toList, some 86399, true⟩ ∧
    (w.sessions "t1".toList).map (·.username) = some "alice@corp".toList :=
  exists_reachable _ _ _ _ sampleRun (by decide +kernel)

theorem signedIn_here_alice : ∃ w : World, (w.jars 0).session = some ⟨"t1".toList, some 86399, true⟩ ∧
    (∀ b held s, (w.jars b).session = some held → w.sessions held.value = some s →
      ∃ a ∈ w.granted, a.client = .browser b ∧ (.browser b, a.state) ∈ w.drawn ∧
        a.Admits sampleSite s.username) ∧
    (∀ t s, t ∈ w.learned → w.sessions t = some s →
      ∃ a ∈ w.granted, a.client = .outsider ∧ a.Admits sampleSite s.username) ∧
    ∀ b held, (w.jars b).session = some held → held.value ∉ w.learned ∧
      ∀ b' held', (w.jars b').session = some held' → held'.value = held.value → b' = b := by
  obtain ⟨w, hw, hsession, -⟩ := exists_sampleRun
  exact ⟨w, hsession, signedIn_here sampleSite hw⟩

end Cuttlefish.SignIn
