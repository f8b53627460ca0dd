import Cuttlefish.Admin.IdentityRules
import Cuttlefish.Serial
import Mathlib.Data.List.Destutter

/-!
# Cuttlefish.Admin.History

The admin endpoints over a whole history of requests, by whoever: `AdminGrants`
and `AdminIdentityRules` behind `adminMiddleware`, with the numbers their rows
get.

The handlers share their shape, so that each request does one of four things to
one of the two tables (`Serial.Does`), and `access_follows_history` reads off
the history what a restricted user may see.
-/

namespace Cuttlefish

/-! ## rows -/

/-- A row of `access_grants` besides its id. -/
structure GrantEntry where
  grant : Grant
  createdBy : Text
  createdAt : Int
  deriving DecidableEq, Repr

/-- A row of `identity_rules` besides its id. -/
structure RuleEntry where
  rule : IdentityRule
  createdBy : Text
  createdAt : Int
  deriving DecidableEq, Repr

structure AdminDb where
  grants : Serial GrantEntry
  rules : Serial RuleEntry

/-- A sequence starts at 1. -/
def AdminDb.init : AdminDb := ⟨Serial.empty 1, Serial.empty 1⟩

/-- What goes wrong with a statement: it fails outright, or after its number
was drawn. -/
inductive Fault where
  | early
  | late
  deriving DecidableEq, Repr

/-- The largest number of a `SERIAL` column. -/
def maxSerial : Nat := 2147483647

/-- What `INSERT … RETURNING id` comes back with. -/
inductive Insertion where
  | row (id : Nat)
  | duplicate
  | failed
  deriving DecidableEq, Repr

/-- `INSERT … RETURNING id` into a table with a unique index.  The number is
drawn before the index is looked at, and a text with a NUL does not even get
there. -/
def Serial.insertReturning {ρ : Type} (t : Serial ρ) (r : ρ) (texts : List Text)
    (duplicate : ρ → Bool) (fault : Option Fault) : Serial ρ × Insertion :=
  if (∃ s ∈ texts, '\x00' ∈ s) ∨ fault = some .early ∨ maxSerial < t.next then (t, .failed)
  else if fault = some .late then (t.skip, .failed)
  else if t.rows.any fun x => duplicate x.2 then (t.skip, .duplicate)
  else (t.insert r, .row t.next)

/-! ## requests and answers -/

inductive AdminRequest where
  | grantsGet
  /-- `none` is a body that is too long or no JSON. -/
  | grantsPost (body : Option GrantBody)
  | grantsDelete (id : Text)
  | rulesGet
  | rulesPost (body : Option IdentityRuleBody)
  | rulesDelete (id : Text)
  /-- Any other method, at either endpoint. -/
  | otherMethod
  deriving DecidableEq, Repr

inductive AdminAnswer where
  | grants (rows : List (Nat × GrantEntry))
  | rules (rows : List (Nat × RuleEntry))
  | grantCreated (row : Nat × GrantEntry)
  | ruleCreated (row : Nat × RuleEntry)
  | noContent
  | refused (status : Nat) (message : Text)
  deriving DecidableEq, Repr

def AdminAnswer.internal : AdminAnswer := .refused 500 "Internal server error".toList

def AdminAnswer.of (e : ApiError) : AdminAnswer := .refused e.status e.message

/-- An `INTEGER` parameter. -/
def fitsInteger (id : Int) : Bool := -2147483648 ≤ id ∧ id ≤ 2147483647

/-- `DELETE ?id=`, which is the same for both tables. -/
def deleteById {ρ : Type} (t : Serial ρ) (id : Text) (fault : Option Fault) :
    Serial ρ × AdminAnswer :=
  match parseInt64 id with
  | none => (t, .refused 400 "id parameter is required".toList)
  | some id => if fault.isSome ∨ ¬ fitsInteger id then (t, .internal) else (t.delete id, .noContent)

/-- `POST`, which is the same for both tables: `conflict` is the answer to a
duplicate. -/
def postRow {ρ : Type} (t : Serial ρ) (r : ρ) (texts : List Text) (duplicate : ρ → Bool)
    (conflict : Text) (created : Nat × ρ → AdminAnswer) (fault : Option Fault) :
    Serial ρ × AdminAnswer :=
  match t.insertReturning r texts duplicate fault with
  | (t, .row id) => (t, created (id, r))
  | (t, .duplicate) => (t, .refused 409 conflict)
  | (t, .failed) => (t, .internal)

/-- `ORDER BY group_type, group_name, path_prefix`. -/
def GrantEntry.listKey (e : GrantEntry) : List Text :=
  [match e.grant.groupType with | .idp => ['i'] | .unix => ['u'], e.grant.groupName,
    e.grant.pathPrefix]

/-- The grants a `GET` lists. -/
def listGrants (t : Serial GrantEntry) : List (Nat × GrantEntry) :=
  t.rows.insertionSort fun a b => a.2.listKey ≤ b.2.listKey

/-- `ORDER BY match_suffix`. -/
def listRules (t : Serial RuleEntry) : List (Nat × RuleEntry) :=
  t.rows.insertionSort fun a b => a.2.rule.matchSuffix ≤ b.2.rule.matchSuffix

/-- `POST /api/admin/grants`. -/
def postGrant (t : Serial GrantEntry) (user : Text) (now : Int) (fault : Option Fault) :
    Option GrantBody → Serial GrantEntry × AdminAnswer
  | none => (t, .refused 400 "Invalid request body".toList)
  | some body =>
      match body.grant with
      | .error e => (t, .of e)
      | .ok g =>
          postRow t ⟨g, user, now⟩ [g.groupName, g.pathPrefix, user] (fun x => x.grant = g)
            "that group already has this prefix".toList .grantCreated fault

/-- `POST /api/admin/identity-rules`. -/
def postRule (lower : Text → Text) (t : Serial RuleEntry) (user : Text) (now : Int)
    (fault : Option Fault) : Option IdentityRuleBody → Serial RuleEntry × AdminAnswer
  | none => (t, .refused 400 "Invalid request body".toList)
  | some body =>
      match body.rule lower with
      | .error e => (t, .of e)
      | .ok r =>
          postRow t ⟨r, user, now⟩ [r.matchSuffix, r.replaceWith, user]
            (fun x => x.rule.matchSuffix = r.matchSuffix)
            "a rule for that suffix already exists".toList .ruleCreated fault

/-- `AdminGrants` and `AdminIdentityRules` behind `adminMiddleware`. -/
def AdminDb.handle (lower : Text → Text) (db : AdminDb) (caller : Access) (now : Int)
    (fault : Option Fault) (request : AdminRequest) : AdminDb × AdminAnswer :=
  if caller.role ≠ .admin then (db, .refused 403 "admin role required".toList)
  else
    match request with
    | .grantsGet => (db, if fault.isSome then .internal else .grants (listGrants db.grants))
    | .grantsPost body =>
        let r := postGrant db.grants caller.user now fault body
        ({ db with grants := r.1 }, r.2)
    | .grantsDelete id =>
        let r := deleteById db.grants id fault
        ({ db with grants := r.1 }, r.2)
    | .rulesGet => (db, if fault.isSome then .internal else .rules (listRules db.rules))
    | .rulesPost body =>
        let r := postRule lower db.rules caller.user now fault body
        ({ db with rules := r.1 }, r.2)
    | .rulesDelete id =>
        let r := deleteById db.rules id fault
        ({ db with rules := r.1 }, r.2)
    | .otherMethod => (db, .refused 405 "GET, POST or DELETE required".toList)

/-! ## the history -/

/-- A request that was answered. -/
structure Answered where
  caller : Access
  request : AdminRequest
  answer : AdminAnswer
  deriving DecidableEq, Repr

structure AdminWorld where
  db : AdminDb := .init
  log : List Answered := []

structure AdminAction where
  caller : Access
  now : Int
  fault : Option Fault
  request : AdminRequest

/-- One request, by whoever. -/
def AdminWorld.step (lower : Text → Text) (w : AdminWorld) (a : AdminAction) :
    Option AdminWorld :=
  let r := w.db.handle lower a.caller a.now a.fault a.request
  some ⟨r.1, w.log ++ [⟨a.caller, a.request, r.2⟩]⟩

def Answered.createsGrant (e : Answered) : Option (Nat × GrantEntry) :=
  match e.answer with
  | .grantCreated row => some row
  | _ => none

def Answered.createsRule (e : Answered) : Option (Nat × RuleEntry) :=
  match e.answer with
  | .ruleCreated row => some row
  | _ => none

/-- The number of a grant that was deleted, if there was one. -/
def Answered.deletesGrant (e : Answered) : Option Int :=
  match e.request, e.answer with
  | .grantsDelete id, .noContent => parseInt64 id
  | _, _ => none

def Answered.deletesRule (e : Answered) : Option Int :=
  match e.request, e.answer with
  | .rulesDelete id, .noContent => parseInt64 id
  | _, _ => none

/-- The grants of the history: created with a 201, and not deleted since. -/
def LiveGrant (log : List Answered) (row : Nat × GrantEntry) : Prop :=
  Serial.Live Answered.createsGrant Answered.deletesGrant log row

/-- The identity rules of the history. -/
def LiveRule (log : List Answered) (row : Nat × RuleEntry) : Prop :=
  Serial.Live Answered.createsRule Answered.deletesRule log row

/-! ## what one request does -/

section Requests

variable {lower : Text → Text} {ρ : Type} {t t' : Serial ρ} {e : Answered}

/-- A new row, or a refusal that costs a number at most. -/
theorem postRow_cases {r : ρ} {texts : List Text} {duplicate : ρ → Bool} {conflict : Text}
    {created : Nat × ρ → AdminAnswer} {fault : Option Fault} {answer : AdminAnswer}
    (h : postRow t r texts duplicate conflict created fault = (t', answer)) :
    (t' = t.insert r ∧ answer = created (t.next, r)) ∨
      (t' = t ∨ t' = t.skip) ∧ ∃ status message, answer = .refused status message := by
  unfold postRow Serial.insertReturning at h
  split_ifs at h <;> cases h
  · exact Or.inr ⟨Or.inl rfl, _, _, rfl⟩
  · exact Or.inr ⟨Or.inr rfl, _, _, rfl⟩
  · exact Or.inr ⟨Or.inr rfl, _, _, rfl⟩
  · exact Or.inl ⟨rfl, rfl⟩

theorem deleteById_cases {id : Text} {fault : Option Fault} {answer : AdminAnswer}
    (h : deleteById t id fault = (t', answer)) :
    (∃ n, parseInt64 id = some n ∧ t' = t.delete n ∧ answer = .noContent) ∨
      t' = t ∧ ∃ status message, answer = .refused status message := by
  unfold deleteById at h
  cases hid : parseInt64 id with
  | none =>
      rw [hid] at h
      cases h
      exact Or.inr ⟨rfl, _, _, rfl⟩
  | some n =>
      rw [hid] at h
      dsimp only at h
      split_ifs at h <;> cases h
      · exact Or.inr ⟨rfl, _, _, rfl⟩
      · exact Or.inl ⟨n, rfl, rfl, rfl⟩

theorem postGrant_cases {t t' : Serial GrantEntry} {user : Text} {now : Int}
    {fault : Option Fault} {body : Option GrantBody} {answer : AdminAnswer}
    (h : postGrant t user now fault body = (t', answer)) :
    (∃ b g, body = some b ∧ b.grant = .ok g ∧ t' = t.insert ⟨g, user, now⟩ ∧
      answer = .grantCreated (t.next, ⟨g, user, now⟩)) ∨
      (t' = t ∨ t' = t.skip) ∧ ∃ status message, answer = .refused status message := by
  cases body with
  | none =>
      cases h
      exact Or.inr ⟨Or.inl rfl, _, _, rfl⟩
  | some b =>
      unfold postGrant at h
      cases hgrant : b.grant with
      | error e =>
          simp only [hgrant] at h
          cases h
          exact Or.inr ⟨Or.inl rfl, _, _, rfl⟩
      | ok g =>
          simp only [hgrant] at h
          rcases postRow_cases h with hnew | hrefused
          · exact Or.inl ⟨b, g, rfl, hgrant, hnew⟩
          · exact Or.inr hrefused

theorem postRule_cases {t t' : Serial RuleEntry} {user : Text} {now : Int}
    {fault : Option Fault} {body : Option IdentityRuleBody} {answer : AdminAnswer}
    (h : postRule lower t user now fault body = (t', answer)) :
    (∃ b r, body = some b ∧ b.rule lower = .ok r ∧ t' = t.insert ⟨r, user, now⟩ ∧
      answer = .ruleCreated (t.next, ⟨r, user, now⟩)) ∨
      (t' = t ∨ t' = t.skip) ∧ ∃ status message, answer = .refused status message := by
  cases body with
  | none =>
      cases h
      exact Or.inr ⟨Or.inl rfl, _, _, rfl⟩
  | some b =>
      unfold postRule at h
      cases hrule : b.rule lower with
      | error e =>
          simp only [hrule] at h
          cases h
          exact Or.inr ⟨Or.inl rfl, _, _, rfl⟩
      | ok r =>
          simp only [hrule] at h
          rcases postRow_cases h with hnew | hrefused
          · exact Or.inl ⟨b, r, rfl, hrule, hnew⟩
          · exact Or.inr hrefused

/-- A refused request leaves a table alone, or costs it a number. -/
theorem does_of_refused {inserts : Answered → Option (Nat × ρ)} {deletes : Answered → Option Int}
    (h : t' = t ∨ t' = t.skip) (hinserts : inserts e = none)
    (hdeletes : deletes e = none) : Serial.Does inserts deletes t t' e := by
  rcases h with hsame | hskip
  · exact .nothing hsame hinserts hdeletes
  · exact .skip hskip hinserts hdeletes

/-- Who a row that comes in is from. -/
structure Authored (lower : Text → Text) (e : Answered) : Prop where
  grant : ∀ row, e.answer = .grantCreated row → e.caller.role = .admin ∧
    row.2.createdBy = e.caller.user ∧
      ∃ body, e.request = .grantsPost (some body) ∧ body.grant = .ok row.2.grant
  rule : ∀ row, e.answer = .ruleCreated row → e.caller.role = .admin ∧
    row.2.createdBy = e.caller.user ∧
      ∃ body, e.request = .rulesPost (some body) ∧ body.rule lower = .ok row.2.rule
  deleted : e.answer = .noContent → e.caller.role = .admin

/-- **What one request does** to the two tables. -/
theorem handle_does {db db' : AdminDb} {caller : Access} {now : Int} {fault : Option Fault}
    {request : AdminRequest} {answer : AdminAnswer}
    (h : db.handle lower caller now fault request = (db', answer)) :
    Serial.Does Answered.createsGrant Answered.deletesGrant db.grants db'.grants
        ⟨caller, request, answer⟩ ∧
      Serial.Does Answered.createsRule Answered.deletesRule db.rules db'.rules
        ⟨caller, request, answer⟩ ∧
      Authored lower ⟨caller, request, answer⟩ := by
  unfold AdminDb.handle at h
  by_cases hrole : caller.role ≠ .admin
  · rw [if_pos hrole] at h
    cases h
    exact ⟨.nothing rfl (by cases request <;> rfl) (by cases request <;> rfl),
      .nothing rfl (by cases request <;> rfl) (by cases request <;> rfl), nofun, nofun, nofun⟩
  · have hadmin : caller.role = .admin := not_not.mp hrole
    rw [if_neg hrole] at h
    cases request with
    | grantsGet =>
        dsimp only at h
        split_ifs at h <;> cases h <;>
          exact ⟨.nothing rfl rfl rfl, .nothing rfl rfl rfl, nofun, nofun, nofun⟩
    | rulesGet =>
        dsimp only at h
        split_ifs at h <;> cases h <;>
          exact ⟨.nothing rfl rfl rfl, .nothing rfl rfl rfl, nofun, nofun, nofun⟩
    | otherMethod =>
        cases h
        exact ⟨.nothing rfl rfl rfl, .nothing rfl rfl rfl, nofun, nofun, nofun⟩
    | grantsPost body =>
        cases h
        generalize hpost : postGrant db.grants caller.user now fault body = result
        obtain ⟨t', answer⟩ := result
        rcases postGrant_cases hpost with
          ⟨b, g, rfl, hgrant, rfl, rfl⟩ | ⟨htable, status, message, rfl⟩
        · refine ⟨.insert _ rfl rfl rfl, .nothing rfl rfl rfl, ?_, nofun, nofun⟩
          intro row hrow
          cases hrow
          exact ⟨hadmin, rfl, b, rfl, hgrant⟩
        · exact ⟨does_of_refused htable rfl rfl, .nothing rfl rfl rfl, nofun, nofun, nofun⟩
    | rulesPost body =>
        cases h
        generalize hpost : postRule lower db.rules caller.user now fault body = result
        obtain ⟨t', answer⟩ := result
        rcases postRule_cases hpost with
          ⟨b, r, rfl, hrule, rfl, rfl⟩ | ⟨htable, status, message, rfl⟩
        · refine ⟨.nothing rfl rfl rfl, .insert _ rfl rfl rfl, nofun, ?_, nofun⟩
          intro row hrow
          cases hrow
          exact ⟨hadmin, rfl, b, rfl, hrule⟩
        · exact ⟨.nothing rfl rfl rfl, does_of_refused htable rfl rfl, nofun, nofun, nofun⟩
    | grantsDelete id =>
        cases h
        generalize hdelete : deleteById db.grants id fault = result
        obtain ⟨t', answer⟩ := result
        rcases deleteById_cases hdelete with ⟨n, hn, rfl, rfl⟩ | ⟨htable, status, message, rfl⟩
        · exact ⟨.delete n rfl rfl hn, .nothing rfl rfl rfl, nofun, nofun, fun _ => hadmin⟩
        · exact ⟨.nothing htable rfl rfl, .nothing rfl rfl rfl, nofun, nofun, nofun⟩
    | rulesDelete id =>
        cases h
        generalize hdelete : deleteById db.rules id fault = result
        obtain ⟨t', answer⟩ := result
        rcases deleteById_cases hdelete with ⟨n, hn, rfl, rfl⟩ | ⟨htable, status, message, rfl⟩
        · exact ⟨.nothing rfl rfl rfl, .delete n rfl rfl hn, nofun, nofun, fun _ => hadmin⟩
        · exact ⟨.nothing rfl rfl rfl, .nothing htable rfl rfl, nofun, nofun, nofun⟩

end Requests

/-! ## runs -/

/-- The tables are what the log says, and the log tells who did what. -/
structure AdminInv (lower : Text → Text) (w : AdminWorld) : Prop where
  grants : Serial.Follows Answered.createsGrant Answered.deletesGrant w.db.grants w.log
  rules : Serial.Follows Answered.createsRule Answered.deletesRule w.db.rules w.log
  authored : ∀ e ∈ w.log, Authored lower e

theorem AdminInv.step {lower : Text → Text} {w w' : AdminWorld} {a : AdminAction}
    (h : AdminInv lower w) (hstep : w.step lower a = some w') : AdminInv lower w' := by
  cases hstep
  obtain ⟨hgrants, hrules, hauthored⟩ :=
    @handle_does lower w.db _ a.caller a.now a.fault a.request _ rfl
  refine ⟨h.grants.step hgrants, h.rules.step hrules, fun e he => ?_⟩
  cases List.mem_append.mp he with
  | inl hold => exact h.authored e hold
  | inr hnew => exact List.mem_singleton.mp hnew ▸ hauthored

theorem adminInv_of_reachable {lower : Text → Text} {P : AdminWorld → AdminAction → Prop}
    {w : AdminWorld} (h : Reachable (AdminWorld.step lower) P {} w) : AdminInv lower w :=
  h.invariant (AdminInv lower)
    ⟨Serial.follows_empty 1, Serial.follows_empty 1, fun _ he => absurd he List.not_mem_nil⟩
    fun _ hinv _ hstep => hinv.step hstep

/-! ## what a restricted user may see -/

theorem mem_destutter' {q x : Text} {l : List Text} (h : q ∈ l) :
    q ∈ List.destutter' (· ≠ ·) x l := by
  induction l generalizing x with
  | nil => cases h
  | cons y l ih =>
      by_cases hxy : x ≠ y
      · rw [List.destutter'_cons_pos _ hxy]
        cases List.mem_cons.mp h with
        | inl hhead => exact List.mem_cons_of_mem _ (hhead ▸ List.mem_destutter' _ _ _)
        | inr htail => exact List.mem_cons_of_mem _ (ih htail)
      · rw [List.destutter'_cons_neg _ hxy]
        cases List.mem_cons.mp h with
        | inl hhead =>
            rw [hhead, ← not_not.mp hxy]
            exact List.mem_destutter' _ _ _
        | inr htail => exact ih htail

/-- `slices.Compact` loses no value. -/
theorem mem_destutter {q : Text} {l : List Text} : q ∈ l.destutter (· ≠ ·) ↔ q ∈ l := by
  refine ⟨fun h => (List.destutter_sublist _ _).subset h, fun h => ?_⟩
  cases l with
  | nil => cases h
  | cons x l =>
      rw [List.destutter_cons']
      cases List.mem_cons.mp h with
      | inl hhead => exact hhead ▸ List.mem_destutter' _ _ _
      | inr htail => exact mem_destutter' htail

section Access

variable {config : AuthConfig} {lower : Text → Text} {rules : List IdentityRule}
  {grants : List Grant} {identity : IdentityTables} {user : Text} {groups : List Text}

theorem mem_prefixes_resolveAccess (hrole : roleFor config groups = .restricted) {q : Text} :
    q ∈ (resolveAccess config lower rules grants identity user groups).prefixes ↔
      ∃ g ∈ grants, grantMatches identity groups (mapIdentity lower user rules) g = true ∧
        q ≠ [] ∧ (fillGrant (mapIdentity lower user rules) g).path = q := by
  rw [resolveAccess, if_neg (not_not_intro hrole), mem_destutter, List.mem_insertionSort,
    List.mem_filter, List.mem_map]
  simp only [matchingGrants, List.mem_map, List.mem_insertionSort, List.mem_filter]
  constructor
  · rintro ⟨⟨m, ⟨g, ⟨hg, hmatches⟩, rfl⟩, rfl⟩, hne⟩
    exact ⟨g, hg, hmatches, of_decide_eq_true hne, rfl⟩
  · rintro ⟨g, hg, hmatches, hne, rfl⟩
    exact ⟨⟨_, ⟨g, ⟨hg, hmatches⟩, rfl⟩, rfl⟩, decide_eq_true hne⟩

theorem allows_resolveAccess (hrole : roleFor config groups = .restricted) {p : Bytes} :
    (resolveAccess config lower rules grants identity user groups).allows p = true ↔
      Canonical p ∧ ∃ g ∈ grants,
        grantMatches identity groups (mapIdentity lower user rules) g = true ∧
          (fillGrant (mapIdentity lower user rules) g).path ≠ [] ∧
            scanRootCovers (utf8 (fillGrant (mapIdentity lower user rules) g).path) p := by
  have hrestricted :
      (resolveAccess config lower rules grants identity user groups).role = .restricted := by
    rw [resolveAccess, if_neg (not_not_intro hrole)]
  constructor
  · intro h
    have hp := Access.allows_eq_true hrestricted h
    obtain ⟨root, hroot, hcovers⟩ := (allows_iff_coveredBy hrestricted hp).mp h
    obtain ⟨q, hq, rfl⟩ := List.mem_map.mp hroot
    obtain ⟨g, hg, hmatches, hne, rfl⟩ := (mem_prefixes_resolveAccess hrole).mp hq
    exact ⟨hp, g, hg, hmatches, hne, hcovers⟩
  · rintro ⟨hp, g, hg, hmatches, hne, hcovers⟩
    refine (allows_iff_coveredBy hrestricted hp).mpr ⟨_, List.mem_map_of_mem ?_, hcovers⟩
    exact (mem_prefixes_resolveAccess hrole).mpr ⟨g, hg, hmatches, hne, rfl⟩

end Access

/-- Rows in whatever order they are read. -/
theorem exists_row_of_perm {ρ β : Type} {f : ρ → β} {t : Serial ρ} {l : List β}
    (h : l.Perm (t.rows.map fun r => f r.2)) {x : β} : x ∈ l ↔ ∃ r ∈ t.rows, f r.2 = x := by
  rw [h.mem_iff, List.mem_map]

/-- **What a restricted user may see is what admins have granted and not taken
back.**  Let requests to the admin endpoints come in any order, from anybody,
with statements that fail.  The next request of a restricted user is allowed a
path exactly if a grant that was created with a 201, and not deleted since,
names the user or a group of theirs and covers it; the identity rules it is
resolved by are those created and not deleted; and each of them was created by
an admin.  No id is given out twice. -/
theorem access_follows_history {lower : Text → Text} {w : AdminWorld}
    (h : Reachable (AdminWorld.step lower) (fun _ _ => True) {} w) {config : AuthConfig}
    {rules : List IdentityRule} {grants : List Grant} {identity : IdentityTables} {user : Text}
    {groups : List Text} (hrules : rules.Perm (w.db.rules.rows.map fun r => r.2.rule))
    (hgrants : grants.Perm (w.db.grants.rows.map fun r => r.2.grant))
    (hrole : roleFor config groups = .restricted) :
    (∀ p, (resolveAccess config lower rules grants identity user groups).allows p = true ↔
      Canonical p ∧ ∃ row, LiveGrant w.log row ∧
        grantMatches identity groups (mapIdentity lower user rules) row.2.grant = true ∧
          (fillGrant (mapIdentity lower user rules) row.2.grant).path ≠ [] ∧
            scanRootCovers (utf8 (fillGrant (mapIdentity lower user rules) row.2.grant).path) p) ∧
    (∀ r, r ∈ rules ↔ ∃ row, LiveRule w.log row ∧ row.2.rule = r) ∧
    (∀ row, LiveGrant w.log row → ∃ e ∈ w.log, e.answer = .grantCreated row ∧
      e.caller.role = .admin ∧ row.2.createdBy = e.caller.user) ∧
    (∀ row, LiveRule w.log row → ∃ e ∈ w.log, e.answer = .ruleCreated row ∧
      e.caller.role = .admin ∧ row.2.createdBy = e.caller.user) ∧
    ((w.log.filterMap Answered.createsGrant).map Prod.fst).Nodup ∧
      ((w.log.filterMap Answered.createsRule).map Prod.fst).Nodup := by
  have hinv := adminInv_of_reachable h
  refine ⟨fun p => ?_, fun r => ?_, fun row hrow => ?_, fun row hrow => ?_, hinv.grants.once,
    hinv.rules.once⟩
  · rw [allows_resolveAccess hrole]
    refine and_congr_right fun _ => ⟨?_, ?_⟩
    · rintro ⟨g, hg, hcovers⟩
      obtain ⟨row, hrow, rfl⟩ := (exists_row_of_perm hgrants).mp hg
      exact ⟨row, (hinv.grants.mem_iff row).mp hrow, hcovers⟩
    · rintro ⟨row, hrow, hcovers⟩
      exact ⟨row.2.grant, (exists_row_of_perm hgrants).mpr
        ⟨row, (hinv.grants.mem_iff row).mpr hrow, rfl⟩, hcovers⟩
  · rw [exists_row_of_perm hrules]
    exact exists_congr fun row => and_congr_left fun _ => hinv.rules.mem_iff row
  · obtain ⟨e, he, hcreates⟩ := hrow.exists_mem
    have hanswer : e.answer = .grantCreated row := by
      unfold Answered.createsGrant at hcreates
      split at hcreates <;> cases hcreates
      assumption
    exact ⟨e, he, hanswer, ((hinv.authored e he).grant row hanswer).1,
      ((hinv.authored e he).grant row hanswer).2.1⟩
  · obtain ⟨e, he, hcreates⟩ := hrow.exists_mem
    have hanswer : e.answer = .ruleCreated row := by
      unfold Answered.createsRule at hcreates
      split at hcreates <;> cases hcreates
      assumption
    exact ⟨e, he, hanswer, ((hinv.authored e he).rule row hanswer).1,
      ((hinv.authored e he).rule row hanswer).2.1⟩

/-- **A second grant of the same path to the same group** is the only one
that the endpoint turns down. -/
theorem grantCreated_iff {lower : Text → Text} {w : AdminWorld}
    (h : Reachable (AdminWorld.step lower) (fun _ _ => True) {} w) {caller : Access}
    (hadmin : caller.role = .admin) (now : Int) {body : GrantBody} {g : Grant}
    (hgrant : body.grant = .ok g)
    (htexts : ∀ s ∈ [g.groupName, g.pathPrefix, caller.user], '\x00' ∉ s)
    (hroom : w.db.grants.next ≤ maxSerial) :
    (∃ row, (w.db.handle lower caller now none (.grantsPost (some body))).2 = .grantCreated row) ↔
      ∀ row, LiveGrant w.log row → row.2.grant ≠ g := by
  have hinv := adminInv_of_reachable h
  have hstorable : ¬ ((∃ s ∈ [g.groupName, g.pathPrefix, caller.user], '\x00' ∈ s) ∨
      (none : Option Fault) = some .early ∨ maxSerial < w.db.grants.next) := by
    rintro (⟨s, hs, hnul⟩ | hfault | hfull)
    · exact htexts s hs hnul
    · contradiction
    · omega
  have hlive : (w.db.grants.rows.any fun x => x.2.grant = g) = true ↔
      ∃ row, LiveGrant w.log row ∧ row.2.grant = g := by
    rw [List.any_eq_true]
    exact exists_congr fun row => and_congr (hinv.grants.mem_iff row) decide_eq_true_iff
  have hanswer : (w.db.handle lower caller now none (.grantsPost (some body))).2 =
      (postRow w.db.grants ⟨g, caller.user, now⟩ [g.groupName, g.pathPrefix, caller.user]
        (fun x => x.grant = g) "that group already has this prefix".toList .grantCreated none).2 := by
    simp only [AdminDb.handle, postGrant, hgrant, hadmin, ne_eq, not_true_eq_false, if_false]
  rw [hanswer, postRow, Serial.insertReturning, if_neg hstorable, if_neg nofun]
  by_cases hdup : (w.db.grants.rows.any fun x => x.2.grant = g) = true
  · rw [if_pos hdup]
    obtain ⟨row, hrow, hsame⟩ := hlive.mp hdup
    refine ⟨fun hcreated => ?_, fun hnone => absurd hsame (hnone row hrow)⟩
    obtain ⟨row', hcreated⟩ := hcreated
    contradiction
  · rw [if_neg hdup]
    exact ⟨fun _ row hrow hsame => hdup (hlive.mpr ⟨row, hrow, hsame⟩), fun _ => ⟨_, rfl⟩⟩

/-! ### an instance -/

def rootAccess : Access := ⟨"root".toList, .admin, [], []⟩

def staffBody (pathPrefix : Text) : GrantBody := ⟨[], "staff".toList, pathPrefix⟩

/-- Two grants, one of which is taken back; a request that is not an admin's. -/
def sampleRequests : List AdminAction :=
  [⟨rootAccess, 0, none, .grantsPost (some (staffBody "/home/".toList))⟩,
    ⟨⟨"bob".toList, .restricted, [], []⟩, 1, none, .grantsPost (some (staffBody "/".toList))⟩,
    ⟨rootAccess, 2, some .late, .grantsPost (some (staffBody "/srv".toList))⟩,
    ⟨rootAccess, 3, none, .grantsPost (some (staffBody "/srv".toList))⟩,
    ⟨rootAccess, 4, none, .grantsDelete "1".toList⟩]

def srvGrant : Grant := ⟨.idp, "staff".toList, "/srv".toList⟩

def staffConfig : AuthConfig := { oidc := { issuer := "https://idp".toList } }

theorem exists_sampleRequests : ∃ w : AdminWorld,
    Reachable (AdminWorld.step id) (fun _ _ => True) {} w ∧
      w.db.grants.rows = [(3, ⟨srvGrant, "root".toList, 3⟩)] ∧ w.db.rules.rows = [] :=
  exists_reachable _ _ _ _ sampleRequests (by decide +kernel)

theorem access_follows_history_srv : ∃ w : AdminWorld,
    w.db.grants.rows = [(3, ⟨srvGrant, "root".toList, 3⟩)] ∧
      ((resolveAccess staffConfig id [] [srvGrant] ⟨Table.empty, Table.empty⟩ "eve".toList
          ["staff".toList]).allows (utf8 "/srv/a".toList) = true ↔
        Canonical (utf8 "/srv/a".toList) ∧ ∃ row, LiveGrant w.log row ∧
          grantMatches ⟨Table.empty, Table.empty⟩ ["staff".toList]
            (mapIdentity id "eve".toList []) row.2.grant = true ∧
          (fillGrant (mapIdentity id "eve".toList []) row.2.grant).path ≠ [] ∧
          scanRootCovers (utf8 (fillGrant (mapIdentity id "eve".toList []) row.2.grant).path)
            (utf8 "/srv/a".toList)) := by
  obtain ⟨w, hw, hgrants, hrules⟩ := exists_sampleRequests
  have hnoRules : ([] : List IdentityRule).Perm (w.db.rules.rows.map fun r => r.2.rule) := by
    rw [hrules]
    exact List.Perm.refl _
  have hsrv : [srvGrant].Perm (w.db.grants.rows.map fun r => r.2.grant) := by
    rw [hgrants]
    exact List.Perm.refl _
  exact ⟨w, hgrants, (access_follows_history hw hnoRules hsrv (by decide)).1 _⟩

end Cuttlefish
