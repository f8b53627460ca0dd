import Cuttlefish.Access
import Cuttlefish.Run
import Mathlib.Logic.Function.Basic

/-!
# Cuttlefish.Login

Local sign-in of `fs_api`, and the limit on failed attempts.

`handleLocalLogin` asks `loginAllowed`, compares the credentials and reports
to `loginFailed` or `loginSucceeded`; each of the three takes the lock of the
records for itself, so between them other requests of the address take their
steps.  `login_bounded` says what keeps the limit: at most as many requests
in flight as there are attempts left.

`Watched` adds what the limit is about and the code does not record: the
wrong credentials compared since the address was unlocked or signed in, and
whether any were compared while it was locked.
-/

namespace Cuttlefish

/-! ## records -/

def loginMaxAttempts : Nat := 10

/-- Fifteen minutes, in nanoseconds. -/
def loginLockDuration : Nat := 15 * 60 * 1000000000

/-- The record of an address; without a lock, `lockedUntil` is the zero time,
which lies before any other. -/
structure IpRecord where
  failures : Nat := 0
  lockedUntil : Option Nat := none
  deriving DecidableEq, Repr

abbrev LoginRecords := Text → Option IpRecord

def loginAllowed (records : LoginRecords) (now : Nat) (ip : Text) : Bool :=
  match records ip with
  | none => true
  | some r =>
      match r.lockedUntil with
      | none => true
      | some t => t < now

/-- One more failure; the last one locks the address and starts over. -/
def IpRecord.fail (r : IpRecord) (now : Nat) : IpRecord :=
  if loginMaxAttempts ≤ r.failures + 1 then ⟨0, some (now + loginLockDuration)⟩
  else { r with failures := r.failures + 1 }

def loginFailed (records : LoginRecords) (now : Nat) (ip : Text) : LoginRecords :=
  Function.update records ip (some (((records ip).getD {}).fail now))

def loginSucceeded (records : LoginRecords) (ip : Text) : LoginRecords :=
  Function.update records ip none

/-! ## requests -/

/-- How a request is answered. -/
inductive LoginResponse where
  | tooManyAttempts
  | invalidBody
  | invalidCredentials
  | signedIn
  deriving DecidableEq, Repr

/-- Where a request stands in `handleLocalLogin`. -/
inductive LoginStage where
  | arrived
  | admitted
  | compared (ok : Bool)
  | answered (response : LoginResponse)
  deriving DecidableEq, Repr

structure LoginRequest where
  ip : Text
  stage : LoginStage
  deriving DecidableEq, Repr

/-- The credentials of a body. -/
structure Credentials where
  username : Text
  password : Text
  deriving DecidableEq, Repr

def credentialsOK (config : AuthConfig) (c : Credentials) : Bool :=
  c.username = config.localUsername && c.password = config.localPassword

/-- The server, as far as sign-in is concerned. -/
structure LoginState where
  now : Nat
  records : LoginRecords
  requests : List LoginRequest

/-- What may happen next; a body that does not decode is `none`. -/
inductive LoginAction where
  | tick (elapsed : Nat)
  | arrive (ip : Text)
  | check (i : Nat)
  | compare (i : Nat) (body : Option Credentials)
  | report (i : Nat)
  deriving DecidableEq, Repr

def LoginState.put (s : LoginState) (i : Nat) (ip : Text) (stage : LoginStage) : LoginState :=
  { s with requests := s.requests.set i ⟨ip, stage⟩ }

/-- One atomic step. -/
def LoginState.next (config : AuthConfig) (s : LoginState) : LoginAction → Option LoginState
  | .tick n => some { s with now := s.now + n }
  | .arrive ip => some { s with requests := s.requests ++ [⟨ip, .arrived⟩] }
  | .check i =>
      match s.requests[i]? with
      | some ⟨ip, .arrived⟩ =>
          some (s.put i ip
            (if loginAllowed s.records s.now ip then .admitted else .answered .tooManyAttempts))
      | _ => none
  | .compare i body =>
      match s.requests[i]? with
      | some ⟨ip, .admitted⟩ =>
          match body with
          | none => some (s.put i ip (.answered .invalidBody))
          | some c => some (s.put i ip (.compared (credentialsOK config c)))
      | _ => none
  | .report i =>
      match s.requests[i]? with
      | some ⟨ip, .compared false⟩ =>
          some { s.put i ip (.answered .invalidCredentials) with
            records := loginFailed s.records s.now ip }
      | some ⟨ip, .compared true⟩ =>
          some { s.put i ip (.answered .signedIn) with records := loginSucceeded s.records ip }
      | _ => none

/-- What a step did. -/
inductive LoginStep (config : AuthConfig) (s : LoginState) : LoginAction → LoginState → Prop
  | tick (n : Nat) : LoginStep config s (.tick n) { s with now := s.now + n }
  | arrive (ip : Text) :
      LoginStep config s (.arrive ip) { s with requests := s.requests ++ [⟨ip, .arrived⟩] }
  | refused {i : Nat} {ip : Text} (hr : s.requests[i]? = some ⟨ip, .arrived⟩)
      (hlocked : loginAllowed s.records s.now ip = false) :
      LoginStep config s (.check i) (s.put i ip (.answered .tooManyAttempts))
  | admitted {i : Nat} {ip : Text} (hr : s.requests[i]? = some ⟨ip, .arrived⟩)
      (hallowed : loginAllowed s.records s.now ip = true) :
      LoginStep config s (.check i) (s.put i ip .admitted)
  | invalid {i : Nat} {ip : Text} (hr : s.requests[i]? = some ⟨ip, .admitted⟩) :
      LoginStep config s (.compare i none) (s.put i ip (.answered .invalidBody))
  | compared {i : Nat} {ip : Text} (c : Credentials)
      (hr : s.requests[i]? = some ⟨ip, .admitted⟩) :
      LoginStep config s (.compare i (some c)) (s.put i ip (.compared (credentialsOK config c)))
  | failed {i : Nat} {ip : Text} (hr : s.requests[i]? = some ⟨ip, .compared false⟩) :
      LoginStep config s (.report i)
        { s.put i ip (.answered .invalidCredentials) with
          records := loginFailed s.records s.now ip }
  | succeeded {i : Nat} {ip : Text} (hr : s.requests[i]? = some ⟨ip, .compared true⟩) :
      LoginStep config s (.report i)
        { s.put i ip (.answered .signedIn) with records := loginSucceeded s.records ip }

theorem LoginState.next_cases {config : AuthConfig} {s s' : LoginState} {act : LoginAction}
    (h : s.next config act = some s') : LoginStep config s act s' := by
  cases act with
  | tick n =>
      cases h
      exact .tick n
  | arrive ip =>
      cases h
      exact .arrive ip
  | check i =>
      rw [LoginState.next] at h
      split at h
      · next ip hr =>
          cases hallowed : loginAllowed s.records s.now ip with
          | true =>
              rw [hallowed] at h
              cases h
              exact .admitted hr hallowed
          | false =>
              rw [hallowed] at h
              cases h
              exact .refused hr hallowed
      · contradiction
  | compare i body =>
      rw [LoginState.next] at h
      split at h
      · next ip hr =>
          cases body with
          | none =>
              cases h
              exact .invalid hr
          | some c =>
              cases h
              exact .compared c hr
      · contradiction
  | report i =>
      rw [LoginState.next] at h
      split at h
      · next ip hr =>
          cases h
          exact .failed hr
      · next ip hr =>
          cases h
          exact .succeeded hr
      · contradiction

/-! ## what the limit is about -/

def LoginState.locked (s : LoginState) (ip : Text) : Bool := !loginAllowed s.records s.now ip

/-- The failures on record. -/
def LoginState.failures (s : LoginState) (ip : Text) : Nat := ((s.records ip).getD {}).failures

/-- Has the request been let in, and not reported yet? -/
def LoginStage.inFlight : LoginStage → Bool
  | .arrived => false
  | .admitted => true
  | .compared _ => true
  | .answered _ => false

/-- The requests of an address that are in flight. -/
def LoginState.inFlight (s : LoginState) (ip : Text) : Nat :=
  s.requests.countP fun r => r.ip = ip && r.stage.inFlight

/-- Those of them whose credentials were wrong. -/
def LoginState.unreported (s : LoginState) (ip : Text) : Nat :=
  s.requests.countP fun r => r.ip = ip && r.stage = .compared false

/-- The credentials an action compares, for an address. -/
def LoginState.comparing (s : LoginState) (act : LoginAction) (ip : Text) : Option Credentials :=
  match act with
  | .compare i body => if s.requests[i]? = some ⟨ip, .admitted⟩ then body else none
  | .tick _ => none
  | .arrive _ => none
  | .check _ => none
  | .report _ => none

/-- Is the action the sign-in of a request of the address? -/
def LoginState.signingIn (s : LoginState) (act : LoginAction) (ip : Text) : Bool :=
  match act with
  | .report i => s.requests[i]? = some ⟨ip, .compared true⟩
  | .tick _ => false
  | .arrive _ => false
  | .check _ => false
  | .compare _ _ => false

/-- The server, with what an observer counts. -/
structure Watched where
  state : LoginState
  /-- The wrong credentials compared since the address was last unlocked or
  signed in. -/
  wrong : Text → Nat
  /-- Were credentials ever compared while the address was locked? -/
  comparedLocked : Text → Bool

/-- A server that has just started. -/
def Watched.init (now : Nat) : Watched :=
  ⟨⟨now, fun _ => none, []⟩, fun _ => 0, fun _ => false⟩

/-- What is counted after a step to `s`. -/
def Watched.wrongAfter (config : AuthConfig) (w : Watched) (act : LoginAction) (s : LoginState)
    (ip : Text) : Nat :=
  if (w.state.locked ip && !s.locked ip) || w.state.signingIn act ip then 0
  else if (w.state.comparing act ip).any fun c => !credentialsOK config c then w.wrong ip + 1
  else w.wrong ip

def Watched.after (config : AuthConfig) (w : Watched) (act : LoginAction) (s : LoginState) :
    Watched where
  state := s
  wrong := w.wrongAfter config act s
  comparedLocked ip :=
    w.comparedLocked ip || (w.state.locked ip && (w.state.comparing act ip).isSome)

def Watched.next (config : AuthConfig) (w : Watched) (act : LoginAction) : Option Watched :=
  (w.state.next config act).map (w.after config act)

/-- A request is only let in while more attempts are left than requests are in
flight. -/
def RoomLeft (w : Watched) (act : LoginAction) : Prop :=
  match act with
  | .check i =>
      ∀ r ∈ w.state.requests[i]?, r.stage = .arrived → w.state.locked r.ip = false →
        w.state.failures r.ip + w.state.inFlight r.ip < loginMaxAttempts
  | .tick _ => True
  | .arrive _ => True
  | .compare _ _ => True
  | .report _ => True

/-! ## one request moves -/

theorem countP_set_add {ρ : Type} {p : ρ → Bool} {l : List ρ} {i : Nat} {r : ρ}
    (hr : l[i]? = some r) (r' : ρ) :
    (l.set i r').countP p + (if p r then 1 else 0) = l.countP p + (if p r' then 1 else 0) := by
  obtain ⟨hi, rfl⟩ := List.getElem?_eq_some_iff.mp hr
  have hpos : p l[i] = true → 0 < l.countP p := fun hp =>
    List.countP_pos_iff.mpr ⟨l[i], List.getElem_mem hi, hp⟩
  rw [List.countP_set hi]
  split_ifs <;> grind

section Put

variable {s : LoginState} {i : Nat} {ip ip' : Text} {stage : LoginStage} (stage' : LoginStage)

@[simp] theorem failures_put : (s.put i ip stage).failures ip' = s.failures ip' := rfl

@[simp] theorem locked_put : (s.put i ip stage).locked ip' = s.locked ip' := rfl

/-- A request of another address. -/
theorem inFlight_put_of_ne (hr : s.requests[i]? = some ⟨ip', stage⟩) (hip : ip' ≠ ip) :
    (s.put i ip' stage').inFlight ip = s.inFlight ip := by
  have hcount := countP_set_add (p := fun r => r.ip = ip && r.stage.inFlight) hr ⟨ip', stage'⟩
  simpa [LoginState.inFlight, LoginState.put, hip] using hcount

theorem unreported_put_of_ne (hr : s.requests[i]? = some ⟨ip', stage⟩) (hip : ip' ≠ ip) :
    (s.put i ip' stage').unreported ip = s.unreported ip := by
  have hcount := countP_set_add (p := fun r => r.ip = ip && r.stage = .compared false) hr
    ⟨ip', stage'⟩
  simpa [LoginState.unreported, LoginState.put, hip] using hcount

theorem inFlight_put (hr : s.requests[i]? = some ⟨ip, stage⟩) :
    (s.put i ip stage').inFlight ip + (if stage.inFlight then 1 else 0) =
      s.inFlight ip + (if stage'.inFlight then 1 else 0) := by
  have hcount := countP_set_add (p := fun r => r.ip = ip && r.stage.inFlight) hr ⟨ip, stage'⟩
  simpa [LoginState.inFlight, LoginState.put] using hcount

theorem unreported_put (hr : s.requests[i]? = some ⟨ip, stage⟩) :
    (s.put i ip stage').unreported ip + (if stage = .compared false then 1 else 0) =
      s.unreported ip + (if stage' = .compared false then 1 else 0) := by
  have hcount := countP_set_add (p := fun r => r.ip = ip && r.stage = .compared false) hr
    ⟨ip, stage'⟩
  simpa [LoginState.unreported, LoginState.put] using hcount

end Put

@[simp] theorem inFlight_records (s : LoginState) (records : LoginRecords) (ip : Text) :
    LoginState.inFlight { s with records := records } ip = s.inFlight ip := rfl

@[simp] theorem unreported_records (s : LoginState) (records : LoginRecords) (ip : Text) :
    LoginState.unreported { s with records := records } ip = s.unreported ip := rfl

theorem unreported_le_inFlight (s : LoginState) (ip : Text) : s.unreported ip ≤ s.inFlight ip := by
  refine List.countP_mono_left fun r _ h => ?_
  rw [Bool.and_eq_true, decide_eq_true_eq, decide_eq_true_eq] at h
  rw [Bool.and_eq_true, decide_eq_true_eq, h.2]
  exact ⟨h.1, rfl⟩

/-! ## the records -/

/-- A failure is counted, or the address is locked and the count starts over. -/
theorem loginFailed_cases {s s' : LoginState} {ip : Text} (hopen : s.locked ip = false)
    (hnow : s'.now = s.now) (hrecords : s'.records = loginFailed s.records s.now ip) :
    (s.failures ip + 1 < loginMaxAttempts ∧ s'.failures ip = s.failures ip + 1 ∧
        s'.locked ip = false) ∨
      (loginMaxAttempts ≤ s.failures ip + 1 ∧ s'.failures ip = 0 ∧ s'.locked ip = true) := by
  have hrecord : s'.records ip = some (((s.records ip).getD {}).fail s.now) := by
    rw [hrecords]
    exact Function.update_self ..
  by_cases hlast : loginMaxAttempts ≤ s.failures ip + 1
  · right
    have hfail : ((s.records ip).getD {}).fail s.now = ⟨0, some (s.now + loginLockDuration)⟩ :=
      if_pos hlast
    have hlater : ¬ s.now + loginLockDuration < s.now := by omega
    exact ⟨hlast, by simp [LoginState.failures, hrecord, hfail],
      by simp [LoginState.locked, loginAllowed, hrecord, hfail, hnow, hlater]⟩
  · left
    have hfail : ((s.records ip).getD {}).fail s.now =
        { (s.records ip).getD {} with failures := s.failures ip + 1 } := if_neg hlast
    refine ⟨by omega, by simp [LoginState.failures, hrecord, hfail], ?_⟩
    simp only [LoginState.locked, loginAllowed, hrecord, hfail, hnow] at hopen ⊢
    cases hold : s.records ip with
    | none => simp
    | some r => simpa [hold] using hopen

/-! ## the invariant -/

/-- What keeps the limit. -/
structure Bounded (w : Watched) (ip : Text) : Prop where
  room : w.state.failures ip + w.state.inFlight ip ≤ loginMaxAttempts
  idle : w.state.locked ip = true → w.state.inFlight ip = 0
  wrong_le : w.state.locked ip = false →
    w.wrong ip ≤ w.state.failures ip + w.state.unreported ip
  wrong_le_max : w.wrong ip ≤ loginMaxAttempts
  comparedLocked_eq : w.comparedLocked ip = false

section Step

variable {config : AuthConfig} {w w' : Watched} {s : LoginState} {act : LoginAction} {ip : Text}

/-- A step that compares nothing, counts nothing and lets nobody of the
address in. -/
theorem Bounded.quiet (h : Bounded w ip) (hfailures : s.failures ip = w.state.failures ip)
    (hlocked : s.locked ip = true → w.state.locked ip = true)
    (hinFlight : s.inFlight ip ≤ w.state.inFlight ip)
    (hunreported : s.unreported ip = w.state.unreported ip)
    (hcomparing : w.state.comparing act ip = none)
    (hsigning : w.state.signingIn act ip = false) : Bounded (w.after config act s) ip := by
  have hwrong : (w.after config act s).wrong ip =
      if w.state.locked ip && !s.locked ip then 0 else w.wrong ip := by
    simp [Watched.after, Watched.wrongAfter, hcomparing, hsigning]
  have hroom := h.room
  constructor
  · show s.failures ip + s.inFlight ip ≤ loginMaxAttempts
    omega
  · intro hs
    have hidle := h.idle (hlocked hs)
    show s.inFlight ip = 0
    omega
  · intro hs
    have hopen : s.locked ip = false := hs
    rw [hwrong, hopen]
    show _ ≤ s.failures ip + s.unreported ip
    cases hbefore : w.state.locked ip with
    | true => simp
    | false =>
        have hle := h.wrong_le hbefore
        simpa [hfailures, hunreported] using hle
  · rw [hwrong]
    split_ifs
    · exact Nat.zero_le _
    · exact h.wrong_le_max
  · simp [Watched.after, hcomparing, h.comparedLocked_eq]

/-- A request in flight means that the address is open. -/
theorem Bounded.open_of_inFlight (h : Bounded w ip) (hpos : 0 < w.state.inFlight ip) :
    w.state.locked ip = false := by
  by_contra hlocked
  have hidle := h.idle (by simpa using hlocked)
  omega

theorem inFlight_pos {i : Nat} {stage : LoginStage} (hr : s.requests[i]? = some ⟨ip, stage⟩)
    (hstage : stage.inFlight = true) : 0 < s.inFlight ip :=
  List.countP_pos_iff.mpr ⟨_, List.mem_of_getElem? hr, by simp [hstage]⟩

/-- Of an open address, two counts are left to bound. -/
theorem Bounded.of_open (hopen : w.state.locked ip = false)
    (hroom : w.state.failures ip + w.state.inFlight ip ≤ loginMaxAttempts)
    (hwrong : w.wrong ip ≤ w.state.failures ip + w.state.unreported ip)
    (hcompared : w.comparedLocked ip = false) : Bounded w ip where
  room := hroom
  idle hlocked := by
    rw [hopen] at hlocked
    contradiction
  wrong_le _ := hwrong
  wrong_le_max := by
    have hle := unreported_le_inFlight w.state ip
    omega
  comparedLocked_eq := hcompared

/-- A request is let in. -/
theorem Bounded.admitted {i : Nat} (h : Bounded w ip)
    (hr : w.state.requests[i]? = some ⟨ip, .arrived⟩) (hopen : w.state.locked ip = false)
    (hroom : w.state.failures ip + w.state.inFlight ip < loginMaxAttempts) :
    Bounded (w.after config (.check i) (w.state.put i ip .admitted)) ip := by
  have hinFlight := inFlight_put .admitted hr
  have hunreported := unreported_put .admitted hr
  simp only [LoginStage.inFlight, reduceCtorEq, if_true, if_false, Nat.add_zero,
    Bool.false_eq_true] at hinFlight hunreported
  have hwrong : (w.after config (.check i) (w.state.put i ip .admitted)).wrong ip = w.wrong ip := by
    simp [Watched.after, Watched.wrongAfter, LoginState.comparing, LoginState.signingIn, hopen]
  refine .of_open hopen ?_ ?_ ?_
  · show w.state.failures ip + (w.state.put i ip .admitted).inFlight ip ≤ loginMaxAttempts
    omega
  · rw [hwrong]
    show _ ≤ w.state.failures ip + (w.state.put i ip .admitted).unreported ip
    rw [hunreported]
    exact h.wrong_le hopen
  · simp [Watched.after, LoginState.comparing, h.comparedLocked_eq]

/-- The credentials of a request are compared. -/
theorem Bounded.compared {i : Nat} (c : Credentials) (h : Bounded w ip)
    (hr : w.state.requests[i]? = some ⟨ip, .admitted⟩) :
    Bounded (w.after config (.compare i (some c))
      (w.state.put i ip (.compared (credentialsOK config c)))) ip := by
  have hopen := h.open_of_inFlight (inFlight_pos hr rfl)
  have hinFlight := inFlight_put (.compared (credentialsOK config c)) hr
  have hunreported := unreported_put (.compared (credentialsOK config c)) hr
  have hwrong_le := h.wrong_le hopen
  have hroom := h.room
  have hwrong : (w.after config (.compare i (some c))
      (w.state.put i ip (.compared (credentialsOK config c)))).wrong ip =
        w.wrong ip + (if credentialsOK config c then 0 else 1) := by
    cases hok : credentialsOK config c <;>
      simp [Watched.after, Watched.wrongAfter, LoginState.comparing, LoginState.signingIn, hopen,
        hr, hok]
  simp only [LoginStage.inFlight, if_true, reduceCtorEq, if_false, Nat.add_zero,
    LoginStage.compared.injEq] at hinFlight hunreported
  have hcount : w.wrong ip + (if credentialsOK config c then 0 else 1) ≤ w.state.failures ip +
      (w.state.put i ip (.compared (credentialsOK config c))).unreported ip := by
    rw [hunreported]
    cases credentialsOK config c <;> simp <;> omega
  refine .of_open hopen ?_ ?_ ?_
  · show w.state.failures ip + (w.state.put i ip _).inFlight ip ≤ loginMaxAttempts
    omega
  · rw [hwrong]
    exact hcount
  · simp [Watched.after, hopen, h.comparedLocked_eq]

/-- A wrong pair is reported. -/
theorem Bounded.failed {i : Nat} (h : Bounded w ip)
    (hr : w.state.requests[i]? = some ⟨ip, .compared false⟩)
    (hs : s = { w.state.put i ip (.answered .invalidCredentials) with
      records := loginFailed w.state.records w.state.now ip }) :
    Bounded (w.after config (.report i) s) ip := by
  have hopen := h.open_of_inFlight (inFlight_pos hr rfl)
  have hinFlight : s.inFlight ip + 1 = w.state.inFlight ip := by
    simpa [hs, LoginStage.inFlight] using inFlight_put (.answered .invalidCredentials) hr
  have hunreported : s.unreported ip + 1 = w.state.unreported ip := by
    simpa [hs] using unreported_put (.answered .invalidCredentials) hr
  have hwrong : (w.after config (.report i) s).wrong ip = w.wrong ip := by
    simp [Watched.after, Watched.wrongAfter, LoginState.comparing, LoginState.signingIn, hopen, hr]
  have hwrong_le := h.wrong_le hopen
  have hroom := h.room
  have hcompared : (w.after config (.report i) s).comparedLocked ip = false := by
    simp [Watched.after, LoginState.comparing, h.comparedLocked_eq]
  have hnow : s.now = w.state.now := by rw [hs]; rfl
  have hrecords : s.records = loginFailed w.state.records w.state.now ip := by rw [hs]
  refine ⟨?_, fun hlocked => ?_, fun hlocked => ?_, hwrong ▸ h.wrong_le_max, hcompared⟩
  · show s.failures ip + s.inFlight ip ≤ loginMaxAttempts
    cases loginFailed_cases hopen hnow hrecords with
    | inl hcounted => omega
    | inr hlast => omega
  · -- the last attempt was the only one in flight
    show s.inFlight ip = 0
    cases loginFailed_cases hopen hnow hrecords with
    | inl hcounted =>
        have hlocked : s.locked ip = true := hlocked
        rw [hcounted.2.2] at hlocked
        contradiction
    | inr hlast => omega
  · rw [hwrong]
    show w.wrong ip ≤ s.failures ip + s.unreported ip
    cases loginFailed_cases hopen hnow hrecords with
    | inl hcounted => omega
    | inr hlast =>
        have hlocked : s.locked ip = false := hlocked
        rw [hlast.2.2] at hlocked
        contradiction

/-- A request signs in. -/
theorem Bounded.succeeded {i : Nat} (h : Bounded w ip)
    (hr : w.state.requests[i]? = some ⟨ip, .compared true⟩)
    (hs : s = { w.state.put i ip (.answered .signedIn) with
      records := loginSucceeded w.state.records ip }) :
    Bounded (w.after config (.report i) s) ip := by
  have hinFlight : s.inFlight ip + 1 = w.state.inFlight ip := by
    simpa [hs, LoginStage.inFlight] using inFlight_put (.answered .signedIn) hr
  have hrecord : s.records ip = none := by
    rw [hs]
    exact Function.update_self ..
  have hfailures : s.failures ip = 0 := by simp [LoginState.failures, hrecord]
  have hwrong : (w.after config (.report i) s).wrong ip = 0 := by
    simp [Watched.after, Watched.wrongAfter, LoginState.signingIn, hr]
  have hroom := h.room
  have hopen : s.locked ip = false := by simp [LoginState.locked, loginAllowed, hrecord]
  refine .of_open hopen ?_ ?_ ?_
  · show s.failures ip + s.inFlight ip ≤ loginMaxAttempts
    omega
  · rw [hwrong]
    exact Nat.zero_le _
  · simp [Watched.after, LoginState.comparing, h.comparedLocked_eq]

/-- A step of a request of another address. -/
theorem Bounded.other {i : Nat} {ip' : Text} {stage stage' : LoginStage} (h : Bounded w ip)
    (hip : ip' ≠ ip) (hr : w.state.requests[i]? = some ⟨ip', stage⟩)
    (hrequests : s.requests = (w.state.put i ip' stage').requests)
    (hnow : s.now = w.state.now) (hrecord : s.records ip = w.state.records ip)
    (hact : act = .check i ∨ (∃ body, act = .compare i body) ∨ act = .report i) :
    Bounded (w.after config act s) ip := by
  have hinFlight : s.inFlight ip = w.state.inFlight ip := by
    rw [← inFlight_put_of_ne stage' hr hip, LoginState.inFlight, hrequests]
    rfl
  have hunreported : s.unreported ip = w.state.unreported ip := by
    rw [← unreported_put_of_ne stage' hr hip, LoginState.unreported, hrequests]
    rfl
  have hfailures : s.failures ip = w.state.failures ip := by
    rw [LoginState.failures, hrecord, LoginState.failures]
  have hlocked : s.locked ip = w.state.locked ip := by
    simp only [LoginState.locked, loginAllowed, hrecord, hnow]
  have hquiet : w.state.comparing act ip = none ∧ w.state.signingIn act ip = false := by
    obtain rfl | ⟨body, rfl⟩ | rfl := hact <;>
      simp [LoginState.comparing, LoginState.signingIn, hr, hip]
  exact h.quiet hfailures (fun hs => hlocked ▸ hs) hinFlight.le hunreported hquiet.1 hquiet.2

/-- Time only opens an address. -/
theorem locked_of_locked_tick {n : Nat}
    (h : LoginState.locked { s with now := s.now + n } ip = true) : s.locked ip = true := by
  simp only [LoginState.locked, loginAllowed, Bool.not_eq_true'] at h ⊢
  cases hrecord : s.records ip with
  | none => simp [hrecord] at h
  | some r =>
      cases huntil : r.lockedUntil with
      | none => simp [hrecord, huntil] at h
      | some t =>
          simp only [hrecord, huntil, decide_eq_false_iff_not] at h ⊢
          omega

/-- One step keeps the limit of every address. -/
theorem Bounded.step (h : Bounded w ip) (hroom : RoomLeft w act)
    (hstep : w.next config act = some w') : Bounded w' ip := by
  obtain ⟨s, hs, rfl⟩ := Option.map_eq_some_iff.mp hstep
  cases LoginState.next_cases hs with
  | tick n => exact h.quiet rfl locked_of_locked_tick le_rfl rfl rfl rfl
  | arrive ip' =>
      refine h.quiet rfl id (Nat.le_of_eq ?_) ?_ rfl rfl
      · simp [LoginState.inFlight, LoginStage.inFlight]
      · simp [LoginState.unreported]
  | @refused i ip' hr hlocked =>
      by_cases hip : ip' = ip
      · subst hip
        have hinFlight := inFlight_put (.answered .tooManyAttempts) hr
        have hunreported := unreported_put (.answered .tooManyAttempts) hr
        exact h.quiet rfl id hinFlight.le (by simpa using hunreported) rfl rfl
      · exact h.other hip hr rfl rfl rfl (.inl rfl)
  | @admitted i ip' hr hallowed =>
      by_cases hip : ip' = ip
      · subst hip
        have hopen : w.state.locked ip' = false := by simp [LoginState.locked, hallowed]
        exact h.admitted hr hopen (hroom _ hr rfl hopen)
      · exact h.other hip hr rfl rfl rfl (.inl rfl)
  | @invalid i ip' hr =>
      by_cases hip : ip' = ip
      · subst hip
        have hcomparing : w.state.comparing (.compare i none) ip' = none := by
          simp [LoginState.comparing]
        have hinFlight := inFlight_put (.answered .invalidBody) hr
        have hunreported := unreported_put (.answered .invalidBody) hr
        simp only [LoginStage.inFlight, if_true, Bool.false_eq_true, if_false] at hinFlight
        exact h.quiet rfl id (by omega) (by simpa using hunreported) hcomparing rfl
      · exact h.other hip hr rfl rfl rfl (.inr (.inl ⟨none, rfl⟩))
  | @compared i ip' c hr =>
      by_cases hip : ip' = ip
      · subst hip
        exact h.compared c hr
      · exact h.other hip hr rfl rfl rfl (.inr (.inl ⟨some c, rfl⟩))
  | @failed i ip' hr =>
      by_cases hip : ip' = ip
      · subst hip
        exact h.failed hr rfl
      · exact h.other hip hr rfl rfl (Function.update_of_ne (Ne.symm hip) ..) (.inr (.inr rfl))
  | @succeeded i ip' hr =>
      by_cases hip : ip' = ip
      · subst hip
        exact h.succeeded hr rfl
      · exact h.other hip hr rfl rfl (Function.update_of_ne (Ne.symm hip) ..) (.inr (.inr rfl))

end Step

theorem bounded_init (now : Nat) (ip : Text) : Bounded (Watched.init now) ip := by
  constructor <;> simp [Watched.init, LoginState.failures, LoginState.inFlight]

/-- **The limit holds** in every run in which requests are let in only while
more attempts are left than requests are in flight: between two moments at
which an address becomes open, without a sign-in, at most `loginMaxAttempts`
wrong pairs are compared, and while it is locked none are. -/
theorem login_bounded {config : AuthConfig} {now : Nat} {w : Watched}
    (h : Reachable (Watched.next config) RoomLeft (Watched.init now) w) (ip : Text) :
    w.wrong ip ≤ loginMaxAttempts ∧ w.comparedLocked ip = false := by
  have hbounded : Bounded w ip :=
    h.invariant (fun w => Bounded w ip) (bounded_init now ip)
      fun _ hbounded hroom hstep => hbounded.step hroom hstep
  exact ⟨hbounded.wrong_le_max, hbounded.comparedLocked_eq⟩

/-! ## guessing -/

instance : DecidableRel RoomLeft := fun w act =>
  match act with
  | .check i =>
      match h : w.state.requests[i]? with
      | none => isTrue (by simp [RoomLeft, h])
      | some r =>
          decidable_of_iff (r.stage = .arrived → w.state.locked r.ip = false →
            w.state.failures r.ip + w.state.inFlight r.ip < loginMaxAttempts)
            (by simp [RoomLeft, h])
  | .tick _ => isTrue trivial
  | .arrive _ => isTrue trivial
  | .compare _ _ => isTrue trivial
  | .report _ => isTrue trivial

def sampleAccount : AuthConfig :=
  { localUsername := "root".toList, localPassword := "secret".toList }

def sampleAddress : Text := "10.0.0.1".toList

def sampleGuess : Credentials := ⟨"root".toList, "guess".toList⟩

/-- One guess from beginning to end. -/
def guessOnce : List LoginAction :=
  [.arrive sampleAddress, .check 0, .compare 0 (some sampleGuess), .report 0]

theorem login_bounded_once : ∃ w,
    Reachable (Watched.next sampleAccount) RoomLeft (Watched.init 0) w ∧
      w.wrong sampleAddress = 1 ∧ w.wrong sampleAddress ≤ loginMaxAttempts ∧
        w.comparedLocked sampleAddress = false := by
  obtain ⟨w, hw, hwrong⟩ := exists_reachable (Watched.next sampleAccount) RoomLeft
    (Watched.init 0) (fun w => w.wrong sampleAddress = 1) guessOnce (by decide)
  exact ⟨w, hw, hwrong, login_bounded hw sampleAddress⟩

/-- Eleven requests come in at once; ten of them fail before the eleventh
compares. -/
def guessTogether : List LoginAction :=
  (List.range 11).flatMap (fun i => [.arrive sampleAddress, .check i]) ++
    (List.range 10).flatMap (fun i => [.compare i (some sampleGuess), .report i]) ++
    [.compare 10 (some sampleGuess)]

/-- Eleven wrong pairs are compared, the last one while the address is
locked. -/
theorem eleven_guesses : ∃ w,
    Reachable (Watched.next sampleAccount) (fun _ _ => True) (Watched.init 0) w ∧
      w.wrong sampleAddress = loginMaxAttempts + 1 ∧ w.comparedLocked sampleAddress = true :=
  exists_reachable (Watched.next sampleAccount) (fun _ _ => True) (Watched.init 0)
    (fun w => w.wrong sampleAddress = loginMaxAttempts + 1 ∧ w.comparedLocked sampleAddress = true)
    guessTogether (by decide +kernel)

end Cuttlefish
