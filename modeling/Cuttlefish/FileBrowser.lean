import Cuttlefish.Calls
import Cuttlefish.Handlers
import Cuttlefish.Run

/-!
# Cuttlefish.FileBrowser

`useFileSystem`, the state of the file browser of `fs_ui`: the directory that
is shown and the entry that is selected in it.

An action is a call of `navigateTo` or `selectItem`, an answer to one of the
requests they sent, or a render.  What the setters set is read by the next
render, so `selectItem` may go by an older selection.

`showsLast_of_heeded` says when the page ends up with what was asked for last.
-/

namespace Cuttlefish

/-- An `Entry` of `fs_ui` is a `FileInfo` of `fs_api`. -/
abbrev Entry := FileInfo

/-! ## requests -/

/-- What the URL of a request says. -/
structure ApiRequest where
  endpoint : Text
  path : Text
  includeStats : Bool
  deriving DecidableEq, Repr

/-- The body of a response; `error` is the `{error}` of a failure. -/
inductive Body (β : Type) where
  | value (v : β)
  | error (message : Text)
  | json
  | invalid (message : Text)
  deriving DecidableEq, Repr

/-- What `fetch` comes to. -/
inductive Fetched (β : Type) where
  | failed (message : Text)
  | response (status : Nat) (body : Body β)
  deriving DecidableEq, Repr

/-- What is thrown: an `ApiError`, another `Error`, or something else. -/
inductive Thrown where
  | api (message : Text) (status : Nat)
  | error (message : Text)
  | other
  deriving DecidableEq, Repr

/-- `res.ok`. -/
def isOk (status : Nat) : Bool := 200 ≤ status && status ≤ 299

def fail {β : Type} (status : Nat) (body : Body β) (fallback : Text) : Thrown :=
  let message := fallback ++ ": ".toList ++ Nat.toDigits 10 status
  match body with
  | .error m => .api (if m = [] then message else m) status
  | _ => .api message status

def listRequest (path : Text) : ApiRequest := ⟨"/api/list".toList, path, true⟩

/-- Anything but an array is no entries. -/
def listEntries : Fetched (List Entry) → Except Thrown (List Entry)
  | .failed m => .error (.error m)
  | .response status body =>
      if isOk status then
        match body with
        | .value data => .ok data
        | .invalid m => .error (.error m)
        | .error _ | .json => .ok []
      else .error (fail status body "Server error".toList)

def statsRequest (path : Text) (fileType : Int) : ApiRequest where
  endpoint := if fileType = 2 then "/api/dir/stats".toList else "/api/file/stats".toList
  path := path
  includeStats := true

/-- None for what `fs_api` does not answer: a success comes with the entry
that was asked for. -/
def getEntryStats (path : Text) : Fetched Entry → Option (Except Thrown Entry)
  | .failed m => some (.error (.error m))
  | .response status body =>
      if isOk status then
        match body with
        | .value d => if d.path = path then some (.ok d) else none
        | .invalid m => some (.error (.error m))
        | .error _ | .json => none
      else some (.error (fail status body "API error".toList))

theorem path_of_getEntryStats {path : Text} {a : Fetched Entry} {d : Entry}
    (h : getEntryStats path a = some (.ok d)) : d.path = path := by
  unfold getEntryStats at h
  split at h
  next => simp at h
  next status body =>
    split_ifs at h
    · cases body with
      | value v =>
          dsimp only at h
          split_ifs at h with hpath
          cases h
          exact hpath
      | invalid m => simp at h
      | error m => contradiction
      | json => contradiction
    · simp at h

def describe (e : Thrown) (path noun : Text) : Text :=
  match e with
  | .api message status =>
      if status = 404 then
        path ++ (" is not in the index. It may have been added since the last scan," ++
          " or never scanned.").toList
      else if status = 403 then "You don't have access to ".toList ++ path ++ ".".toList
      else message
  | .error message => message
  | .other => "Could not load this ".toList ++ noun ++ ".".toList

/-! ## the hook -/

/-- The state and refs of `useFileSystem`, and the requests sent.  The current
controllers are those of the last requests.  `lastClick` is the entry of the
last `selectItem` since the last `navigateTo`. -/
structure FileBrowser where
  currentPath : Text
  entries : List Entry := []
  selectedItem : Option Entry := none
  isLoading : Bool := false
  error : Option Text := none
  selectedPathRef : Option Text := none
  lists : List (Call ApiRequest (Except Thrown (List Entry))) := []
  details : List (Call ApiRequest (Except Thrown Entry)) := []
  lastClick : Option Entry := none

namespace FileBrowser

variable (s : FileBrowser)

/-- `navigateTo`, until the answer. -/
def navigateTo (path : Text) : FileBrowser :=
  { s with
    lists := send (listRequest path) s.lists
    currentPath := path
    selectedItem := none
    error := none
    isLoading := true
    lastClick := none }

/-- `navigateTo`, from an answer to its request. -/
def listed (k : Nat) (reply : Fetched (List Entry)) : Option FileBrowser :=
  s.lists[k]?.bind fun c =>
    -- an aborted `fetch` throws, and the handler returns
    if c.aborted then some s
    else if c.reply.isSome then none
    else
      let s := { s with lists := answer k (listEntries reply) s.lists, isLoading := false }
      match listEntries reply with
      | .ok data => some { s with entries := data }
      | .error e =>
          some { s with entries := [], error := some (describe e c.query.path "directory".toList) }

/-- `selectItem`, until the answer. -/
def selectItem (entry : Entry) : FileBrowser :=
  -- the early return goes by the last render, and aborts nothing
  if s.selectedPathRef = some entry.path then { s with lastClick := some entry }
  else
    { s with
      details := send (statsRequest entry.path entry.fileType) s.details
      error := none
      isLoading := true
      lastClick := some entry }

/-- `selectItem`, from an answer to its request. -/
def detailed (k : Nat) (reply : Fetched Entry) : Option FileBrowser :=
  s.details[k]?.bind fun c =>
    if c.aborted then some s
    else if c.reply.isSome then none
    else
      (getEntryStats c.query.path reply).map fun r =>
        let s := { s with details := answer k r s.details, isLoading := false }
        match r with
        | .ok data => { s with selectedItem := some data }
        | .error e =>
            { s with
              selectedItem := none
              error := some (describe e c.query.path "entry".toList) }

/-- `selectedPathRef.current = selectedItem?.path ?? null`. -/
def render : FileBrowser := { s with selectedPathRef := s.selectedItem.map (·.path) }

inductive Action where
  | navigateTo (path : Text)
  | selectItem (entry : Entry)
  | listed (k : Nat) (reply : Fetched (List Entry))
  | detailed (k : Nat) (reply : Fetched Entry)
  | render
  | close
  deriving DecidableEq, Repr

def step : FileBrowser → Action → Option FileBrowser
  | s, .navigateTo path => some (s.navigateTo path)
  | s, .selectItem entry => some (s.selectItem entry)
  | s, .listed k reply => s.listed k reply
  | s, .detailed k reply => s.detailed k reply
  | s, .render => some s.render
  | s, .close => some { s with selectedItem := none }

/-! ## what is asked for -/

/-- No request is outstanding. -/
def Settled : Prop := (∀ c ∈ s.lists, ¬ c.Outstanding) ∧ ∀ c ∈ s.details, ¬ c.Outstanding

def DetailOutstanding : Prop := ∃ c ∈ s.details, c.Outstanding

/-- `d` was answered to a request for the details of `path`. -/
def DetailsOf (path : Text) (d : Entry) : Prop :=
  ∃ c ∈ s.details, c.query.path = path ∧ c.reply = some (.ok d)

/-- The error of the last listing, if it failed. -/
def listError : Option Text :=
  match s.lists.head?.bind (·.reply) with
  | some (.error e) => some (describe e s.currentPath "directory".toList)
  | _ => none

/-- What the answer to a listing leaves on the page. -/
def Shows : Option (Except Thrown (List Entry)) → Prop
  | none => False
  | some (.ok data) => s.entries = data
  | some (.error e) =>
      s.entries = [] ∧ s.error = some (describe e s.currentPath "directory".toList)

/-- The entries are those of the last listing, or none and its error. -/
def EntriesShown : Prop :=
  (s.lists = [] → s.entries = []) ∧
    ∀ c ∈ s.lists.head?, c.query = listRequest s.currentPath ∧ s.Shows c.reply

/-- What is selected are the details of the entry clicked last, if one was
clicked since the last navigation. -/
def SelectionShown : Prop := ∀ d ∈ s.selectedItem, ∃ e ∈ s.lastClick, s.DetailsOf e.path d

/-- The page shows what was asked for last. -/
def ShowsLast : Prop := s.EntriesShown ∧ s.SelectionShown

/-- Details arrive for the entry clicked last and with the error of a failed
listing in place, or fail to arrive when there is none to replace. -/
def AnswerHeeded (path : Text) : Option (Except Thrown Entry) → Prop
  | none => True
  | some (.ok _) =>
      (∃ e ∈ s.lastClick, e.path = path) ∧ (s.listError.isSome → s.error.isSome)
  | some (.error _) => s.listError = none

/-- A click that is ignored finds no other entry selected, or a request for
details outstanding, and the answers to these are heeded. -/
def LastHeeded (s : FileBrowser) : Action → Prop
  | .selectItem entry =>
      s.selectedPathRef = some entry.path → ¬ s.DetailOutstanding →
        ∀ d ∈ s.selectedItem, d.path = entry.path
  | .detailed k reply =>
      ∀ c ∈ s.details[k]?, c.Outstanding →
        s.AnswerHeeded c.query.path (getEntryStats c.query.path reply)
  | _ => True

instance : Decidable s.Settled := inferInstanceAs (Decidable (_ ∧ _))

instance : Decidable s.DetailOutstanding := inferInstanceAs (Decidable (∃ c ∈ s.details, _))

instance (path : Text) (d : Entry) : Decidable (s.DetailsOf path d) :=
  inferInstanceAs (Decidable (∃ c ∈ s.details, _))

instance : DecidablePred s.Shows
  | none => .isFalse id
  | some (.ok _) => inferInstanceAs (Decidable (_ = _))
  | some (.error _) => inferInstanceAs (Decidable (_ ∧ _))

instance : Decidable s.EntriesShown := inferInstanceAs (Decidable (_ ∧ ∀ c ∈ s.lists.head?, _))

instance : Decidable s.SelectionShown :=
  inferInstanceAs (Decidable (∀ d ∈ s.selectedItem, _))

instance : Decidable s.ShowsLast := inferInstanceAs (Decidable (_ ∧ _))

instance (path : Text) : DecidablePred (s.AnswerHeeded path)
  | none => .isTrue trivial
  | some (.ok _) => inferInstanceAs (Decidable (_ ∧ _))
  | some (.error _) => inferInstanceAs (Decidable (_ = _))

instance (s : FileBrowser) : DecidablePred s.LastHeeded
  | .selectItem _ => inferInstanceAs (Decidable (_ = _ → ¬ _ → ∀ d ∈ s.selectedItem, _))
  | .detailed k _ => inferInstanceAs (Decidable (∀ c ∈ s.details[k]?, _))
  | .navigateTo _ | .listed .. | .render | .close => .isTrue trivial

/-! ## answers -/

section Answers

variable {s s' : FileBrowser} {k : Nat}

/-- The answer to a listing. -/
theorem listed_cases {reply : Fetched (List Entry)} (h : s.listed k reply = some s') :
    s' = s ∨ ∃ c, s.lists[k]? = some c ∧ c.Outstanding ∧
      ((∃ data, listEntries reply = .ok data ∧
          s' = { s with
            lists := answer k (.ok data) s.lists
            isLoading := false
            entries := data }) ∨
        ∃ e, listEntries reply = .error e ∧
          s' = { s with
            lists := answer k (.error e) s.lists
            isLoading := false
            entries := []
            error := some (describe e c.query.path "directory".toList) }) := by
  obtain ⟨c, hc, hreply⟩ := Option.bind_eq_some_iff.mp h
  split_ifs at hreply with haborted hanswered
  · cases hreply
    exact Or.inl rfl
  · have hout : c.Outstanding := ⟨by simpa using haborted, by simpa using hanswered⟩
    refine Or.inr ⟨c, hc, hout, ?_⟩
    cases hlist : listEntries reply with
    | ok data =>
        rw [hlist] at hreply
        cases hreply
        exact Or.inl ⟨data, rfl, rfl⟩
    | error e =>
        rw [hlist] at hreply
        cases hreply
        exact Or.inr ⟨e, rfl, rfl⟩

/-- The answer to a request for details. -/
theorem detailed_cases {reply : Fetched Entry} (h : s.detailed k reply = some s') :
    s' = s ∨ ∃ c, s.details[k]? = some c ∧ c.Outstanding ∧
      ((∃ data, getEntryStats c.query.path reply = some (.ok data) ∧
          s' = { s with
            details := answer k (.ok data) s.details
            isLoading := false
            selectedItem := some data }) ∨
        ∃ e, getEntryStats c.query.path reply = some (.error e) ∧
          s' = { s with
            details := answer k (.error e) s.details
            isLoading := false
            selectedItem := none
            error := some (describe e c.query.path "entry".toList) }) := by
  obtain ⟨c, hc, hreply⟩ := Option.bind_eq_some_iff.mp h
  split_ifs at hreply with haborted hanswered
  · cases hreply
    exact Or.inl rfl
  · have hout : c.Outstanding := ⟨by simpa using haborted, by simpa using hanswered⟩
    obtain ⟨r, hr, rfl⟩ := Option.map_eq_some_iff.mp hreply
    refine Or.inr ⟨c, hc, hout, ?_⟩
    cases r with
    | ok data => exact Or.inl ⟨data, hr, rfl⟩
    | error e => exact Or.inr ⟨e, hr, rfl⟩

end Answers

/-! ## the invariant -/

/-- The entries that an answer to a listing leaves. -/
def entriesOf : Except Thrown (List Entry) → List Entry
  | .ok data => data
  | .error _ => []

/-- What holds in every state of a run whose steps are heeded.  The error of a
failed listing may be hidden while a request for details is outstanding. -/
structure Invariant : Prop where
  lists : LastOnly s.lists
  start : s.lists = [] → s.entries = []
  shown : ∀ c ∈ s.lists.head?,
    c.query = listRequest s.currentPath ∧ ∀ r ∈ c.reply, s.entries = entriesOf r
  failed : ∀ m ∈ s.listError, s.error = some m ∨ s.error = none ∧ s.DetailOutstanding
  answers : ∀ c ∈ s.details, ∀ d, c.reply = some (.ok d) → d.path = c.query.path
  selected : ∀ d ∈ s.selectedItem,
    (∃ e ∈ s.lastClick, s.DetailsOf e.path d) ∨ s.DetailOutstanding

/-- The invariant is all that a settled page needs. -/
theorem Invariant.showsLast {s : FileBrowser} (h : s.Invariant) (hsettled : s.Settled) :
    s.ShowsLast := by
  have hnone : ¬ s.DetailOutstanding := fun ⟨c, hc, hout⟩ => hsettled.2 c hc hout
  constructor
  · refine ⟨h.start, fun c hc => ?_⟩
    obtain ⟨hquery, hentries⟩ := h.shown c hc
    refine ⟨hquery, ?_⟩
    cases hreply : c.reply with
    | none =>
        have hout : c.Outstanding := ⟨h.lists.last c hc, by simp [hreply]⟩
        exact hsettled.1 c (List.mem_of_mem_head? hc) hout
    | some r =>
        cases r with
        | ok data => exact hentries _ hreply
        | error e =>
            have herror : s.listError = some (describe e s.currentPath "directory".toList) := by
              rw [Option.mem_def] at hc
              simp [listError, hc, hreply]
            exact ⟨hentries _ hreply,
              (h.failed _ herror).resolve_right fun hhidden => hnone hhidden.2⟩
  · exact fun d hd => (h.selected d hd).resolve_right hnone

/-! ## one lemma an action -/

section Steps

variable {s s' : FileBrowser} {k : Nat}

theorem invariant_fresh (path : Text) : Invariant { currentPath := path } := by
  constructor
  · exact lastOnly_nil
  all_goals simp [listError]

theorem Invariant.navigateTo (h : s.Invariant) (path : Text) : (s.navigateTo path).Invariant := by
  constructor
  · exact h.lists.send _
  · simp [FileBrowser.navigateTo, send]
  · simp [FileBrowser.navigateTo, send]
  · simp [FileBrowser.navigateTo, send, listError]
  · exact h.answers
  · simp [FileBrowser.navigateTo]

/-- An answer to a listing is one to the last navigation. -/
theorem Invariant.listed {reply : Fetched (List Entry)} (h : s.Invariant)
    (hstep : s.listed k reply = some s') : s'.Invariant := by
  obtain rfl | ⟨c, hc, hout, hanswer⟩ := listed_cases hstep
  · exact h
  · obtain rfl := h.lists.eq_zero hc hout
    have hquery := (h.shown c (by rwa [List.head?_eq_getElem?])).1
    obtain ⟨data, hdata, rfl⟩ | ⟨e, he, rfl⟩ := hanswer
    · have hhead := head?_answer_zero hc (.ok data)
      have hne : answer 0 (.ok data) s.lists ≠ [] := by
        intro hnil
        simp [hnil] at hhead
      constructor
      · exact h.lists.answer hc hout _
      · exact fun hnil => absurd hnil hne
      · simp [hhead, hquery, entriesOf]
      · simp [listError, hhead]
      · exact h.answers
      · exact h.selected
    · have hhead := head?_answer_zero hc (.error e)
      constructor
      · exact h.lists.answer hc hout _
      · exact fun _ => rfl
      · simp [hhead, hquery, entriesOf]
      · intro m hm
        simp only [listError, hhead, Option.bind_some, Option.mem_def, Option.some.injEq] at hm
        rw [← hm, hquery]
        exact Or.inl rfl
      · exact h.answers
      · exact h.selected

/-- A click either sends a request, or leaves what it finds. -/
theorem Invariant.selectItem {entry : Entry} (h : s.Invariant)
    (hheeded : s.LastHeeded (.selectItem entry)) : (s.selectItem entry).Invariant := by
  unfold FileBrowser.selectItem
  split_ifs with hcommitted
  · refine ⟨h.lists, h.start, h.shown, h.failed, h.answers, fun d hd => ?_⟩
    by_cases hout : s.DetailOutstanding
    · exact Or.inr hout
    · obtain ⟨e, he, c, hc, hpath, hreply⟩ := (h.selected d hd).resolve_right hout
      have hentry := hheeded hcommitted hout d hd
      exact Or.inl ⟨entry, rfl, c, hc, (h.answers c hc d hreply).symm.trans hentry, hreply⟩
  · set sent := send (statsRequest entry.path entry.fileType) s.details with hsent
    have hout : ∃ c ∈ sent, c.Outstanding := by simp [hsent, send, Call.Outstanding]
    refine ⟨h.lists, h.start, h.shown, fun _ _ => Or.inr ⟨rfl, hout⟩, ?_, fun _ _ => Or.inr hout⟩
    intro c hc d hreply
    cases mem_send hc with
    | inl hnew => simp [hnew] at hreply
    | inr hold =>
        obtain ⟨c', hc', hquery, hreply'⟩ := hold
        rw [hquery]
        exact h.answers c' hc' d (hreply'.symm.trans hreply)

/-- An answer keeps the path that was asked for. -/
theorem Invariant.answers_answer (h : s.Invariant) {c : Call ApiRequest (Except Thrown Entry)}
    (hc : s.details[k]? = some c) {r : Except Thrown Entry}
    (hr : ∀ d, r = .ok d → d.path = c.query.path) :
    ∀ c' ∈ answer k r s.details, ∀ d, c'.reply = some (.ok d) → d.path = c'.query.path := by
  intro c' hc' d hreply
  cases mem_answer hc' with
  | inl hold => exact h.answers c' hold d hreply
  | inr hnew =>
      obtain ⟨c'', hc'', rfl⟩ := hnew
      rw [hc] at hc''
      cases hc''
      exact hr d (Option.some.inj hreply)

/-- Details arrive where they were asked for last. -/
theorem Invariant.detailed {reply : Fetched Entry} (h : s.Invariant)
    (hheeded : s.LastHeeded (.detailed k reply)) (hstep : s.detailed k reply = some s') :
    s'.Invariant := by
  obtain rfl | ⟨c, hc, hout, hanswer⟩ := detailed_cases hstep
  · exact h
  · have hanswered := hheeded c hc hout
    obtain ⟨data, hdata, rfl⟩ | ⟨e, he, rfl⟩ := hanswer
    · rw [hdata] at hanswered
      obtain ⟨⟨e, hclick, hpath⟩, herror⟩ := hanswered
      refine ⟨h.lists, h.start, h.shown, ?_, h.answers_answer hc ?_, ?_⟩
      · intro m hm
        have hshown := herror (Option.isSome_of_mem hm)
        refine Or.inl ((h.failed m hm).resolve_right fun hhidden => ?_)
        simp [hhidden.1] at hshown
      · intro d hd
        cases hd
        exact path_of_getEntryStats hdata
      · intro d hd
        cases hd
        exact Or.inl ⟨e, hclick, _, mem_answer_self hc, hpath.symm, rfl⟩
    · rw [he] at hanswered
      refine ⟨h.lists, h.start, h.shown, ?_, h.answers_answer hc (by simp), by simp⟩
      intro m hm
      have hnone : s.listError = none := hanswered
      have hsome : s.listError = some m := hm
      rw [hnone] at hsome
      contradiction

theorem Invariant.step {a : Action} (h : s.Invariant) (hheeded : s.LastHeeded a)
    (hstep : s.step a = some s') : s'.Invariant := by
  cases a with
  | navigateTo path =>
      cases hstep
      exact h.navigateTo path
  | selectItem entry =>
      cases hstep
      exact h.selectItem hheeded
  | listed k reply => exact h.listed hstep
  | detailed k reply => exact h.detailed hheeded hstep
  | render =>
      cases hstep
      exact ⟨h.lists, h.start, h.shown, h.failed, h.answers, h.selected⟩
  | close =>
      cases hstep
      exact ⟨h.lists, h.start, h.shown, h.failed, h.answers, by simp⟩

end Steps

/-! ## runs -/

/-- **The last call wins**: once no request is outstanding, the page shows the
directory navigated to last, or its error, and no details but those of the
entry clicked there last. -/
theorem showsLast_of_heeded {path : Text} {s : FileBrowser}
    (h : Reachable step LastHeeded { currentPath := path } s) (hsettled : s.Settled) :
    s.ShowsLast := by
  have hinv : s.Invariant := h.invariant Invariant (invariant_fresh path)
    fun _ hinv hheeded hstep => hinv.step hheeded hstep
  exact hinv.showsLast hsettled

/-- An entry with nothing but a path. -/
def sampleEntry (path : Text) : Entry where
  path := path
  pathRaw := none
  sizeBytes := 0
  fileType := 1
  perms := []
  uid := 0
  gid := 0
  user := []
  group := []
  mtime := 0
  atime := 0
  ctime := 0

/-- A directory, two files of it clicked one after the other, and a directory
that is refused. -/
theorem showsLast_of_heeded_two_clicks :
    ∃ s : FileBrowser, (s.Settled ∧ s.entries = [] ∧ s.details.length = 2) ∧ s.ShowsLast := by
  have hrun := exists_reachable step LastHeeded { currentPath := "/".toList }
    (fun s => s.Settled ∧ s.entries = [] ∧ s.details.length = 2)
    [.navigateTo "/".toList,
      .listed 0 (.response 200 (.value [sampleEntry "/a".toList, sampleEntry "/b".toList])),
      .selectItem (sampleEntry "/a".toList), .selectItem (sampleEntry "/b".toList),
      .detailed 0 (.response 200 (.value (sampleEntry "/b".toList))), .render,
      .navigateTo "/c".toList, .listed 0 (.response 403 (.error "refused".toList))] (by decide)
  obtain ⟨s, hreached, hsettled, hrest⟩ := hrun
  exact ⟨s, ⟨hsettled, hrest⟩, showsLast_of_heeded hreached hsettled⟩

/-- Three ways to lose the last call: details that arrive after a navigation,
a click on the entry that is still selected, and a listing whose error is
replaced by that of the entry clicked before it failed. -/
theorem last_call_lost :
    (∃ s, Reachable step (fun _ _ => True) { currentPath := "/".toList } s ∧ s.Settled ∧
        ¬ s.ShowsLast ∧ s.currentPath = "/c".toList ∧
          s.selectedItem = some (sampleEntry "/a".toList)) ∧
      (∃ s, Reachable step (fun _ _ => True) { currentPath := "/".toList } s ∧ s.Settled ∧
        ¬ s.ShowsLast ∧ s.lastClick = some (sampleEntry "/a".toList) ∧
          s.selectedItem = some (sampleEntry "/b".toList)) ∧
      ∃ s, Reachable step (fun _ _ => True) { currentPath := "/".toList } s ∧ s.Settled ∧
        ¬ s.ShowsLast ∧ s.currentPath = "/c".toList ∧
          s.error = some "You don't have access to /a.".toList := by
  constructor
  · exact exists_reachable step (fun _ _ => True) { currentPath := "/".toList } _
      [.navigateTo "/".toList, .listed 0 (.response 200 (.value [sampleEntry "/a".toList])),
        .selectItem (sampleEntry "/a".toList), .navigateTo "/c".toList,
        .listed 0 (.response 200 (.value [])),
        .detailed 0 (.response 200 (.value (sampleEntry "/a".toList)))] (by decide)
  constructor
  · exact exists_reachable step (fun _ _ => True) { currentPath := "/".toList } _
      [.navigateTo "/".toList,
        .listed 0 (.response 200 (.value [sampleEntry "/a".toList, sampleEntry "/b".toList])),
        .selectItem (sampleEntry "/a".toList),
        .detailed 0 (.response 200 (.value (sampleEntry "/a".toList))), .render,
        .selectItem (sampleEntry "/b".toList), .selectItem (sampleEntry "/a".toList),
        .detailed 0 (.response 200 (.value (sampleEntry "/b".toList)))] (by decide)
  · exact exists_reachable step (fun _ _ => True) { currentPath := "/".toList } _
      [.navigateTo "/".toList, .listed 0 (.response 200 (.value [sampleEntry "/a".toList])),
        .navigateTo "/c".toList, .selectItem (sampleEntry "/a".toList),
        .listed 0 (.response 500 (.error "failed".toList)),
        .detailed 0 (.response 403 (.error "refused".toList))] (by decide)

end FileBrowser

end Cuttlefish
