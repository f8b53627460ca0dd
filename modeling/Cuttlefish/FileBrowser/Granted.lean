import Cuttlefish.FileBrowser
import Cuttlefish.Handlers.Opened
import Cuttlefish.Search.Parameters

/-!
# Cuttlefish.FileBrowser.Granted

The file browser of a restricted user, against the server it talks to.

The page offers breadcrumbs, the granted roots and the entries it has listed;
the server decides by `Access.allows` on every request.  `clicks_granted` says
that the two agree: a breadcrumb can be clicked exactly if the server would
answer it, and no run of clicks, Back and Forward included, sends a request
that is refused.

What is typed into the jump field or the address bar is not a click.
-/

namespace Cuttlefish

namespace FileBrowser

/-! ## breadcrumbs -/

/-- `underPrefix`. -/
def underPrefix (path pre : Text) : Prop :=
  path = pre ∨ (if ['/'] <:+ pre then pre else pre ++ ['/']) <+: path

instance (path pre : Text) : Decidable (underPrefix path pre) :=
  inferInstanceAs (Decidable (_ ∨ _))

/-- The paths of the breadcrumbs, the root first. -/
def crumbs (currentPath : Text) : List Text :=
  ['/'] :: (List.range (segments currentPath).length).map fun i =>
    '/' :: ['/'].intercalate ((segments currentPath).take (i + 1))

/-- The breadcrumb at `i` cannot be clicked: it is the last one, or outside
the prefixes of a restricted user. -/
def Inert (prefixes : Option (List Text)) (currentPath : Text) (i : Nat) (crumb : Text) : Prop :=
  i + 1 = (crumbs currentPath).length ∨ ∃ ps ∈ prefixes, ∀ p ∈ ps, ¬ underPrefix crumb p

/-! ## the page -/

/-- `FileBrowserPage`: the hook, the URL it follows, and the URLs in the
browser's history. -/
structure Page where
  browser : FileBrowser
  prefixes : Option (List Text)
  urlPath : Text
  visited : List Text
  /-- The URL changed, and the effect that follows it comes next. -/
  navigating : Bool

/-- `searchParams.get('path') || prefixes?.[0] || '/'`. -/
def urlPathOf (prefixes : Option (List Text)) (path : Text) : Text :=
  let first := (prefixes.bind List.head?).getD []
  if path ≠ [] then path else if first ≠ [] then first else ['/']

/-- The page as it opens without a path. -/
def Page.init (prefixes : Option (List Text)) : Page where
  browser := { currentPath := urlPathOf prefixes [] }
  prefixes := prefixes
  urlPath := urlPathOf prefixes []
  visited := [urlPathOf prefixes []]
  navigating := true

/-- The URL names another path. -/
def Page.goTo (p : Page) (path : Text) : Page :=
  let url := urlPathOf p.prefixes path
  { p with
    urlPath := url
    visited := url :: p.visited
    navigating := p.navigating || url ≠ p.urlPath }

def Page.openPath (p : Page) (path : Text) : Page :=
  if path = p.urlPath then { p with browser := p.browser.navigateTo path } else p.goTo path

inductive PageAction where
  /-- A breadcrumb, a granted root or a directory. -/
  | openPath (path : Text)
  | selectItem (entry : Entry)
  /-- Back or Forward. -/
  | goTo (path : Text)
  | effect
  | listed (k : Nat) (reply : Fetched (List Entry))
  | detailed (k : Nat) (reply : Fetched Entry)
  | render
  | close

def Page.on (p : Page) (b : Option FileBrowser) : Option Page :=
  b.map fun b => { p with browser := b }

def Page.step : Page → PageAction → Option Page
  | p, .openPath path => some (p.openPath path)
  | p, .selectItem entry => some { p with browser := p.browser.selectItem entry }
  | p, .goTo path => some (p.goTo path)
  | p, .effect =>
      if p.navigating then
        some { p with browser := p.browser.navigateTo p.urlPath, navigating := false }
      else none
  | p, .listed k reply => p.on (p.browser.listed k reply)
  | p, .detailed k reply => p.on (p.browser.detailed k reply)
  | p, .render => some { p with browser := p.browser.render }
  | p, .close => some { p with browser := { p.browser with selectedItem := none } }

/-- The entries a render may have shown. -/
def Received (s : FileBrowser) (e : Entry) : Prop :=
  ∃ c ∈ s.lists, ∃ data, c.reply = some (.ok data) ∧ e ∈ data

/-! ## the server -/

end FileBrowser

/-- `respondJSON` or `respondError`. -/
def respond {β : Type} : Except ApiError β → Fetched β
  | .ok v => .response 200 (.value v)
  | .error e => .response e.status (.error e.message)

/-- A nil slice is `null`. -/
def respondFiles : Except ApiError (List FileInfo) → Fetched (List FileInfo)
  | .ok [] => .response 200 .json
  | files => respond files

namespace FileBrowser

/-- What comes of a request for a listing.  The network, the session or the
database may fail. -/
inductive ListServed (d : Digest) (db : ApiDb) (a : Access) (q : ApiRequest) :
    Fetched (List Entry) → Prop
  | unreachable (message : Text) : ListServed d db a q (.failed message)
  | unavailable (status : Nat) (message : Text) (h : status = 401 ∨ status = 500) :
      ListServed d db a q (.response status (.error message))
  | answered (rows : List EntryRow)
      (h : rows.Perm (childrenQuery d db (utf8 q.path) q.includeStats)) :
      ListServed d db a q (respondFiles (listDirectory d db a (utf8 q.path) q.includeStats rows))

/-- What comes of a request for the metadata of an entry. -/
inductive EntryServed (d : Digest) (db : ApiDb) (a : Access) (q : ApiRequest) :
    Fetched Entry → Prop
  | unreachable (message : Text) : EntryServed d db a q (.failed message)
  | unavailable (status : Nat) (message : Text) (h : status = 401 ∨ status = 500) :
      EntryServed d db a q (.response status (.error message))
  | answered : EntryServed d db a q (respond
      (if q.endpoint = "/api/dir/stats".toList then getDirStats d db a (utf8 q.path) q.includeStats
      else getFileStats d db a (utf8 q.path)))

/-- Every action is one the page offers, or what the server answers. -/
def Clicks (d : Digest) (db : ApiDb) (a : Access) (p : Page) : PageAction → Prop
  | .openPath path =>
      (∃ i, (crumbs p.browser.currentPath)[i]? = some path ∧
        ¬ Inert p.prefixes p.browser.currentPath i path) ∨
      (∃ ps ∈ p.prefixes, 1 < ps.length ∧ path ∈ ps) ∨
      ∃ e, p.browser.Received e ∧ e.fileType = 2 ∧ e.path = path
  | .selectItem e => p.browser.Received e
  | .goTo path => path ∈ p.visited
  | .effect => True
  | .listed k reply => ∀ c ∈ p.browser.lists[k]?, ListServed d db a c.query reply
  | .detailed k reply => ∀ c ∈ p.browser.details[k]?, EntryServed d db a c.query reply
  | .render => True
  | .close => True

/-! ## breadcrumbs and prefixes -/

theorem crumbs_textPath {segs : List Text} (h : ∀ s ∈ segs, IsSegment s) {i : Nat} {crumb : Text}
    (hcrumb : (crumbs (textPath segs))[i]? = some crumb) :
    crumb = textPath (segs.take i) ∧ i ≤ segs.length := by
  rw [crumbs, segments_textPath h] at hcrumb
  cases i with
  | zero =>
      cases hcrumb
      exact ⟨rfl, Nat.zero_le _⟩
  | succ i =>
      rw [List.getElem?_cons_succ, List.getElem?_map, Option.map_eq_some_iff] at hcrumb
      obtain ⟨j, hj, rfl⟩ := hcrumb
      obtain ⟨hi, rfl⟩ := List.getElem?_eq_some_iff.mp hj
      rw [List.length_range] at hi
      rw [List.getElem_range]
      exact ⟨rfl, hi⟩

/-- A canonical prefix ends in a separator only if it is `/`. -/
theorem eq_slash_of_suffix {segs : List Text} (h : ∀ s ∈ segs, IsSegment s)
    (hsuffix : ['/'] <:+ textPath segs) : segs = [] := by
  cases segs using List.reverseRecOn with
  | nil => rfl
  | append_singleton segs s _ =>
      have hs : IsSegment s := h s (by simp)
      obtain ⟨front, hfront⟩ : ∃ front, textPath (segs ++ [s]) = front ++ s := by
        by_cases hsegs : segs = []
        · exact ⟨['/'], by simp [hsegs, textPath]⟩
        · exact ⟨'/' :: (['/'].intercalate segs ++ ['/']), by
            rw [textPath, intercalate_concat _ hsegs]
            simp⟩
      obtain ⟨t, ht⟩ := hsuffix
      have hlast := congrArg List.getLast? (ht.trans hfront)
      rw [List.getLast?_append_of_ne_nil _ hs.ne_nil, List.getLast?_concat] at hlast
      exact absurd (List.mem_of_getLast? hlast.symm) hs.slash_not_mem

/-- **The guard is the server's check**, on canonical paths. -/
theorem underPrefix_iff {path pre : Text} (hpre : Canonical (utf8 pre))
    (hpath : Canonical (utf8 path)) :
    underPrefix path pre ↔ scanRootCovers (utf8 pre) (utf8 path) := by
  rw [scanRootCovers_utf8_iff hpath.1, underPrefix]
  obtain ⟨segs, hsegs, rfl⟩ := exists_textPath hpre
  by_cases hsuffix : ['/'] <:+ textPath segs
  · have hroot : textPath segs = ['/'] := by
      rw [eq_slash_of_suffix hsegs hsuffix]
      rfl
    have habs : ['/'] <+: path := utf8_prefix_utf8.mp hpath.1
    rw [if_pos hsuffix, hroot]
    exact iff_of_true (Or.inr habs) (Or.inl rfl)
  · have hroot : textPath segs ≠ ['/'] := by
      intro heq
      rw [heq] at hsuffix
      exact hsuffix List.suffix_rfl
    rw [if_neg hsuffix, or_iff_right hroot]

/-! ## what may be asked for -/

/-- A world in which a restricted user clicks: an index that scans led to, with
every path in play canonical, and so is every rendering and every prefix. -/
structure Browsing (d : Digest) (paths : Set Bytes) (db : ApiDb) (a : Access) : Prop where
  restricted : a.role = .restricted
  resolved : Resolved a
  scanned : Scanned d paths db
  canonical : ∀ p ∈ paths, Canonical p
  rendered : ∀ p ∈ paths, utf8 (fromUtf8Lossy p) ∈ paths
  prefixes : ∀ p ∈ a.prefixes, utf8 p ∈ paths

/-- A path the server answers for. -/
structure Granted (paths : Set Bytes) (a : Access) (path : Text) : Prop where
  allows : a.allows (utf8 path) = true
  mem : utf8 path ∈ paths

/-- A request that was not refused. -/
structure NotRefused {β : Type} (paths : Set Bytes) (a : Access)
    (c : Call ApiRequest (Except Thrown β)) : Prop where
  granted : Granted paths a c.query.path
  reply : ∀ message, c.reply ≠ some (.error (.api message 403))

section Browsing

variable {d : Digest} {paths : Set Bytes} {db : ApiDb} {a : Access}

/-- The directories above a path in play are in play. -/
theorem mem_of_take (hinPlay : PathsInPlay d paths) {cs : List Bytes}
    (hcs : ∀ c ∈ cs, IsComponent c) (hmem : absPath cs ∈ paths) (i : Nat) :
    absPath (cs.take i) ∈ paths := by
  induction cs using List.reverseRecOn with
  | nil => simpa using hmem
  | append_singleton cs c ih =>
      have hpre : ∀ x ∈ cs, IsComponent x := fun x hx => hcs x (by simp [hx])
      have hc : IsComponent c := hcs c (by simp)
      have hparent : getParentPath (absPath (cs ++ [c])) = some (absPath cs) := by
        rw [absPath_concat (fun x hx => (hpre x hx).ne_nil) c]
        exact getParentPath_under (by simp [absPath]) hc.ne_nil hc.slash_not_mem
      by_cases hi : i ≤ cs.length
      · rw [List.take_append_of_le_length hi]
        exact ih hpre (hinPlay.parent _ hmem _ hparent)
      · rwa [List.take_of_length_le (by simp; omega)]

variable (h : Browsing d paths db a)
include h

theorem Browsing.covered_iff {path : Text} (hpath : Canonical (utf8 path)) :
    a.allows (utf8 path) = true ↔ ∃ p ∈ a.prefixes, underPrefix path p := by
  rw [allows_iff_coveredBy h.restricted hpath]
  simp only [CoveredBy, List.mem_map, exists_exists_and_eq_and]
  exact exists_congr fun p => and_congr_right fun hp =>
    (underPrefix_iff (h.resolved.canonical p hp) hpath).symm

theorem Browsing.granted_prefix {p : Text} (hp : p ∈ a.prefixes) : Granted paths a p where
  allows := (h.covered_iff (h.resolved.canonical p hp)).mpr ⟨p, hp, Or.inl rfl⟩
  mem := h.prefixes p hp

/-- A breadcrumb of a granted path is a canonical path in play. -/
theorem Browsing.mem_crumb {currentPath : Text} (hcurrent : Granted paths a currentPath) {i : Nat}
    {crumb : Text} (hcrumb : (crumbs currentPath)[i]? = some crumb) :
    utf8 crumb ∈ paths ∧ Canonical (utf8 crumb) := by
  obtain ⟨segs, hsegs, rfl⟩ := exists_textPath (h.canonical _ hcurrent.mem)
  obtain ⟨rfl, -⟩ := crumbs_textPath hsegs hcrumb
  have hcomponents : ∀ c ∈ segs.map utf8, IsComponent c := by
    intro c hc
    obtain ⟨s, hs, rfl⟩ := List.mem_map.mp hc
    exact isComponent_utf8.mpr (hsegs s hs)
  have hmem := hcurrent.mem
  rw [utf8_textPath] at hmem
  have htake := mem_of_take h.scanned.inPlay hcomponents hmem i
  rw [← List.map_take, ← utf8_textPath] at htake
  exact ⟨htake, h.canonical _ htake⟩

/-- **A breadcrumb can be clicked** exactly if the server answers for it. -/
theorem Browsing.inert_iff {currentPath : Text} (hcurrent : Granted paths a currentPath) {i : Nat}
    {crumb : Text} (hcrumb : (crumbs currentPath)[i]? = some crumb) :
    Inert (some a.prefixes) currentPath i crumb ↔
      i + 1 = (crumbs currentPath).length ∨ a.allows (utf8 crumb) = false := by
  have hcovered := h.covered_iff (h.mem_crumb hcurrent hcrumb).2
  rw [Inert, ← Bool.not_eq_true, hcovered]
  simp

/-- A listed entry may be asked for. -/
theorem Browsing.granted_entry {path : Text} (hpath : Granted paths a path)
    {includeStats : Bool} {rows : List EntryRow}
    (hrows : rows.Perm (childrenQuery d db (utf8 path) includeStats)) {files : List FileInfo}
    (hfiles : listDirectory d db a (utf8 path) includeStats rows = .ok files) {e : FileInfo}
    (he : e ∈ files) : Granted paths a e.path := by
  obtain ⟨x, hshown⟩ := shown_of_listing h.scanned hpath.mem hrows hfiles he
  have hlinked := h.scanned.linked x hshown.mem
  refine ⟨hshown.allows h.scanned h.canonical, ?_⟩
  rw [hshown.path_eq, hlinked.path_eq]
  exact h.rendered x.raw hlinked.emitted

end Browsing

/-! ## answers -/

/-- A failure keeps its status. -/
theorem fail_ne_refused {β : Type} {status : Nat} (h : status ≠ 403) (body : Body β)
    (fallback message : Text) : fail status body fallback ≠ .api message 403 := by
  intro heq
  unfold fail at heq
  cases body <;> exact h (Thrown.api.inj heq).2

theorem listEntries_failure {status : Nat} (h : isOk status = false) (body : Body (List Entry)) :
    listEntries (.response status body) = .error (fail status body "Server error".toList) := by
  unfold listEntries
  dsimp only
  rw [if_neg (by rw [h]; decide)]

theorem getEntryStats_failure (path : Text) {status : Nat} (h : isOk status = false)
    (body : Body Entry) :
    getEntryStats path (.response status body) =
      some (.error (fail status body "API error".toList)) := by
  unfold getEntryStats
  dsimp only
  rw [if_neg (by rw [h]; decide)]

theorem isOk_status (e : ApiError) : isOk e.status = false := by cases e <;> rfl

theorem isOk_unavailable {status : Nat} (h : status = 401 ∨ status = 500) :
    isOk status = false ∧ status ≠ 403 := by
  rcases h with rfl | rfl <;> decide

section Browsing

variable {d : Digest} {paths : Set Bytes} {db : ApiDb} {a : Access}

/-- Only a path outside the prefixes is refused. -/
theorem status_of_listDirectory {path : Bytes} (hallows : a.allows path = true)
    {includeStats : Bool} {rows : List EntryRow} {e : ApiError}
    (h : listDirectory d db a path includeStats rows = .error e) : e.status ≠ 403 := by
  unfold listDirectory at h
  rw [if_neg (not_not_intro hallows)] at h
  dsimp only at h
  split_ifs at h <;> cases h <;> simp [ApiError.status]

theorem status_of_getFileStats {path : Bytes} (hallows : a.allows path = true) {e : ApiError}
    (h : getFileStats d db a path = .error e) : e.status ≠ 403 := by
  unfold getFileStats at h
  rw [if_neg (not_not_intro hallows), find_entry] at h
  cases hfind : db.filesystemIndex.find? (pathHash d path) <;>
    simp only [hfind, Option.map_none, Option.map_some] at h <;>
    split_ifs at h <;> cases h <;> simp [ApiError.status]

theorem status_of_getDirStats {path : Bytes} (hallows : a.allows path = true)
    {includeStats : Bool} {e : ApiError}
    (h : getDirStats d db a path includeStats = .error e) : e.status ≠ 403 := by
  unfold getDirStats at h
  rw [if_neg (not_not_intro hallows), find_entry] at h
  cases hfind : db.filesystemIndex.find? (pathHash d path) <;>
    simp only [hfind, Option.map_none, Option.map_some] at h <;>
    split_ifs at h <;> cases h <;> simp [ApiError.status]

variable (h : Browsing d paths db a)
include h

/-- A listing that may be asked for is not refused, and what it brings may be
asked for. -/
theorem Browsing.listServed {q : ApiRequest} (hq : Granted paths a q.path)
    {reply : Fetched (List Entry)} (hreply : ListServed d db a q reply) :
    (∀ message, listEntries reply ≠ .error (.api message 403)) ∧
      ∀ data, listEntries reply = .ok data → ∀ e ∈ data, Granted paths a e.path := by
  cases hreply with
  | unreachable message => exact ⟨by simp [listEntries], by simp [listEntries]⟩
  | unavailable status message hstatus =>
      obtain ⟨hfail, hne⟩ := isOk_unavailable hstatus
      rw [listEntries_failure hfail]
      exact ⟨fun _ heq => fail_ne_refused hne _ _ _ (Except.error.inj heq), by simp⟩
  | answered rows hrows =>
      cases hlist : listDirectory d db a (utf8 q.path) q.includeStats rows with
      | ok files =>
          have hdata : listEntries (respondFiles (.ok files)) = .ok files := by
            cases files <;> rfl
          rw [hdata]
          refine ⟨by simp, fun data hok e he => ?_⟩
          cases hok
          exact h.granted_entry hq hrows hlist he
      | error e =>
          rw [respondFiles, respond, listEntries_failure (isOk_status e)]
          · exact ⟨fun _ heq => fail_ne_refused (status_of_listDirectory hq.allows hlist) _ _ _
              (Except.error.inj heq), by simp⟩
          · simp

omit h in
/-- A request for metadata that may be made is not refused. -/
theorem entryServed_of_granted {q : ApiRequest} (hq : Granted paths a q.path)
    {reply : Fetched Entry} (hreply : EntryServed d db a q reply) :
    ∀ message, getEntryStats q.path reply ≠ some (.error (.api message 403)) := by
  intro message heq
  cases hreply with
  | unreachable message => simp [getEntryStats] at heq
  | unavailable status message hstatus =>
      obtain ⟨hfail, hne⟩ := isOk_unavailable hstatus
      rw [getEntryStats_failure _ hfail] at heq
      exact fail_ne_refused hne _ _ _ (Except.error.inj (Option.some.inj heq))
  | answered =>
      generalize hresult : (if q.endpoint = "/api/dir/stats".toList then
        getDirStats d db a (utf8 q.path) q.includeStats
          else getFileStats d db a (utf8 q.path)) = result at heq
      cases result with
      | ok f =>
          have hok : getEntryStats q.path (respond (.ok f)) =
              if f.path = q.path then some (.ok f) else none := rfl
          rw [hok] at heq
          split_ifs at heq
          cases heq
      | error e =>
          have hne : e.status ≠ 403 := by
            split_ifs at hresult
            · exact status_of_getDirStats hq.allows hresult
            · exact status_of_getFileStats hq.allows hresult
          rw [respond, getEntryStats_failure _ (isOk_status e)] at heq
          exact fail_ne_refused hne _ _ _ (Except.error.inj (Option.some.inj heq))

end Browsing

/-! ## the invariant -/

/-- Whatever the hook asked for was granted, and so is whatever it has shown. -/
structure Asks (paths : Set Bytes) (a : Access) (s : FileBrowser) : Prop where
  current : Granted paths a s.currentPath
  received : ∀ e, s.Received e → Granted paths a e.path
  lists : ∀ c ∈ s.lists, NotRefused paths a c
  details : ∀ c ∈ s.details, NotRefused paths a c

/-- Whatever the page can open is granted. -/
structure Page.Invariant (paths : Set Bytes) (a : Access) (p : Page) : Prop where
  prefixes : p.prefixes = some a.prefixes
  url : Granted paths a p.urlPath
  visited : ∀ path ∈ p.visited, Granted paths a path
  asks : p.browser.Asks paths a

section Requests

variable {β : Type} {paths : Set Bytes} {a : Access} {cs : List (Call ApiRequest (Except Thrown β))}
  (h : ∀ c ∈ cs, NotRefused paths a c)
include h

theorem notRefused_send {q : ApiRequest} (hq : Granted paths a q.path) :
    ∀ c ∈ send q cs, NotRefused paths a c := by
  intro c hc
  rcases mem_send hc with rfl | ⟨c', hc', hquery, hreply⟩
  · exact ⟨hq, by simp⟩
  · have hold := h c' hc'
    exact ⟨hquery ▸ hold.granted, fun message => hreply ▸ hold.reply message⟩

theorem notRefused_answer {k : Nat} {r : Except Thrown β}
    (hr : ∀ message, r ≠ .error (.api message 403)) :
    ∀ c ∈ answer k r cs, NotRefused paths a c := by
  intro c hc
  rcases mem_answer hc with hold | ⟨c', hc', rfl⟩
  · exact h c hold
  · exact ⟨(h c' (List.mem_of_getElem? hc')).granted,
      fun message heq => hr message (Option.some.inj heq)⟩

end Requests

section Steps

variable {d : Digest} {paths : Set Bytes} {db : ApiDb} {a : Access} {s s' : FileBrowser}

theorem Asks.navigateTo (hasks : s.Asks paths a) {path : Text} (hpath : Granted paths a path) :
    (s.navigateTo path).Asks paths a where
  current := hpath
  received := by
    rintro e ⟨c, hc, data, hreply, he⟩
    rcases mem_send hc with rfl | ⟨c', hc', -, hold⟩
    · cases hreply
    · exact hasks.received e ⟨c', hc', data, hold.symm.trans hreply, he⟩
  lists := notRefused_send hasks.lists hpath
  details := hasks.details

theorem Asks.selectItem (hasks : s.Asks paths a) {entry : Entry}
    (hentry : Granted paths a entry.path) : (s.selectItem entry).Asks paths a := by
  unfold FileBrowser.selectItem
  split_ifs
  · exact ⟨hasks.current, hasks.received, hasks.lists, hasks.details⟩
  · exact ⟨hasks.current, hasks.received, hasks.lists,
      notRefused_send (q := statsRequest entry.path entry.fileType) hasks.details hentry⟩

theorem Asks.listed (hasks : s.Asks paths a) (h : Browsing d paths db a) {k : Nat}
    {reply : Fetched (List Entry)}
    (hserved : ∀ c ∈ s.lists[k]?, ListServed d db a c.query reply)
    (hstep : s.listed k reply = some s') : s'.Asks paths a := by
  rcases listed_cases hstep with rfl | ⟨c, hc, -, hanswer⟩
  · exact hasks
  · have hquery := (hasks.lists c (List.mem_of_getElem? hc)).granted
    obtain ⟨hrefused, hdata⟩ := h.listServed hquery (hserved c hc)
    rcases hanswer with ⟨data, hok, rfl⟩ | ⟨e, herror, rfl⟩
    · refine ⟨hasks.current, ?_, notRefused_answer hasks.lists (by simp), hasks.details⟩
      rintro e ⟨c', hc', data', hreply, he⟩
      rcases mem_answer hc' with hold | ⟨c'', -, rfl⟩
      · exact hasks.received e ⟨c', hold, data', hreply, he⟩
      · cases hreply
        exact hdata data hok e he
    · refine ⟨hasks.current, ?_, notRefused_answer hasks.lists ?_, hasks.details⟩
      · rintro e' ⟨c', hc', data', hreply, he⟩
        rcases mem_answer hc' with hold | ⟨c'', -, rfl⟩
        · exact hasks.received e' ⟨c', hold, data', hreply, he⟩
        · cases hreply
      · exact fun message heq => hrefused message (herror.trans heq)

theorem Asks.detailed (hasks : s.Asks paths a) {k : Nat}
    {reply : Fetched Entry} (hserved : ∀ c ∈ s.details[k]?, EntryServed d db a c.query reply)
    (hstep : s.detailed k reply = some s') : s'.Asks paths a := by
  rcases detailed_cases hstep with rfl | ⟨c, hc, -, hanswer⟩
  · exact hasks
  · have hquery := (hasks.details c (List.mem_of_getElem? hc)).granted
    have hrefused := entryServed_of_granted hquery (hserved c hc)
    rcases hanswer with ⟨data, hok, rfl⟩ | ⟨e, herror, rfl⟩
    · exact ⟨hasks.current, hasks.received, hasks.lists,
        notRefused_answer hasks.details (by simp)⟩
    · refine ⟨hasks.current, hasks.received, hasks.lists, notRefused_answer hasks.details ?_⟩
      exact fun message heq => hrefused message (by rw [herror, heq])

/-- The URL of a granted path is the path. -/
theorem urlPathOf_of_granted (prefixes : Option (List Text)) {path : Text}
    (hrole : a.role = .restricted) (hpath : Granted paths a path) :
    urlPathOf prefixes path = path := by
  have hne : path ≠ [] := by
    rintro rfl
    exact ne_nil_of_allows hrole hpath.allows rfl
  rw [urlPathOf, if_pos hne]

variable {p p' : Page}

theorem Page.Invariant.goTo (hinv : p.Invariant paths a) (hrole : a.role = .restricted)
    {path : Text} (hpath : Granted paths a path) : (p.goTo path).Invariant paths a := by
  rw [Page.goTo, urlPathOf_of_granted p.prefixes hrole hpath]
  exact ⟨hinv.prefixes, hpath, List.forall_mem_cons.mpr ⟨hpath, hinv.visited⟩, hinv.asks⟩

/-- What the page offers is granted. -/
theorem Page.Invariant.granted_of_click (hinv : p.Invariant paths a)
    (h : Browsing d paths db a) {path : Text} (hclick : Clicks d db a p (.openPath path)) :
    Granted paths a path := by
  rcases hclick with ⟨i, hcrumb, hactive⟩ | ⟨ps, hps, -, hmem⟩ | ⟨e, hreceived, -, rfl⟩
  · rw [hinv.prefixes, h.inert_iff hinv.asks.current hcrumb, not_or, Bool.not_eq_false] at hactive
    exact ⟨hactive.2, (h.mem_crumb hinv.asks.current hcrumb).1⟩
  · rw [hinv.prefixes] at hps
    cases hps
    exact h.granted_prefix hmem
  · exact hinv.asks.received e hreceived

theorem Page.Invariant.step (hinv : p.Invariant paths a) (h : Browsing d paths db a)
    {act : PageAction} (hclick : Clicks d db a p act) (hstep : p.step act = some p') :
    p'.Invariant paths a := by
  obtain ⟨hprefixes, hurl, hvisited, hasks⟩ := id hinv
  cases act with
  | openPath path =>
      have hpath := hinv.granted_of_click h hclick
      cases hstep
      unfold Page.openPath
      split_ifs
      · exact ⟨hprefixes, hurl, hvisited, hasks.navigateTo hpath⟩
      · exact hinv.goTo h.restricted hpath
  | selectItem entry =>
      cases hstep
      exact ⟨hprefixes, hurl, hvisited, hasks.selectItem (hasks.received entry hclick)⟩
  | goTo path =>
      cases hstep
      exact hinv.goTo h.restricted (hvisited path hclick)
  | effect =>
      rw [Page.step] at hstep
      split_ifs at hstep
      cases hstep
      exact ⟨hprefixes, hurl, hvisited, hasks.navigateTo hurl⟩
  | listed k reply =>
      obtain ⟨b, hb, rfl⟩ := Option.map_eq_some_iff.mp hstep
      exact ⟨hprefixes, hurl, hvisited, hasks.listed h hclick hb⟩
  | detailed k reply =>
      obtain ⟨b, hb, rfl⟩ := Option.map_eq_some_iff.mp hstep
      exact ⟨hprefixes, hurl, hvisited, hasks.detailed hclick hb⟩
  | render =>
      cases hstep
      exact ⟨hprefixes, hurl, hvisited, hasks.current, hasks.received, hasks.lists, hasks.details⟩
  | close =>
      cases hstep
      exact ⟨hprefixes, hurl, hvisited, hasks.current, hasks.received, hasks.lists, hasks.details⟩

theorem invariant_init (h : Browsing d paths db a) (hne : a.prefixes ≠ []) :
    (Page.init (some a.prefixes)).Invariant paths a := by
  obtain ⟨first, rest, hfirst⟩ := List.exists_cons_of_ne_nil hne
  have hgranted : Granted paths a first := h.granted_prefix (by simp [hfirst])
  have hurl : urlPathOf (some a.prefixes) [] = first := by
    have hpath : first ≠ [] := by
      rintro rfl
      exact ne_nil_of_allows h.restricted hgranted.allows rfl
    simp [urlPathOf, hfirst, hpath]
  rw [Page.init, hurl]
  refine ⟨rfl, hgranted, by simpa using hgranted, hgranted, ?_, by simp, by simp⟩
  rintro e ⟨c, hc, -⟩
  simp at hc

end Steps

/-! ## runs -/

/-- **No click is refused.**  Let a restricted user click through the index
that any scans, crashes and clean-ups led to: breadcrumbs, granted roots,
entries, Back and Forward, in any order and whatever answer arrives when.  In
every state, each request sent was one the server answers for, none came back
refused, and a breadcrumb can be clicked exactly if the server would answer. -/
theorem clicks_granted {d : Digest} {paths : Set Bytes} {db : ApiDb} {a : Access}
    (hbrowsing : Browsing d paths db a) (hne : a.prefixes ≠ []) {p : Page}
    (h : Reachable Page.step (Clicks d db a) (Page.init (some a.prefixes)) p) :
    (∀ c ∈ p.browser.lists, a.allows (utf8 c.query.path) = true ∧
        ∀ message, c.reply ≠ some (.error (.api message 403))) ∧
      (∀ c ∈ p.browser.details, a.allows (utf8 c.query.path) = true ∧
        ∀ message, c.reply ≠ some (.error (.api message 403))) ∧
      ∀ i crumb, (crumbs p.browser.currentPath)[i]? = some crumb →
        (Inert p.prefixes p.browser.currentPath i crumb ↔
          i + 1 = (crumbs p.browser.currentPath).length ∨ a.allows (utf8 crumb) = false) := by
  have hinv : p.Invariant paths a := h.invariant (Page.Invariant paths a)
    (invariant_init hbrowsing hne)
    fun _ hinv hclick hstep => hinv.step hbrowsing hclick hstep
  refine ⟨fun c hc => ?_, fun c hc => ?_, fun i crumb hcrumb => ?_⟩
  · exact ⟨(hinv.asks.lists c hc).granted.allows, (hinv.asks.lists c hc).reply⟩
  · exact ⟨(hinv.asks.details c hc).granted.allows, (hinv.asks.details c hc).reply⟩
  · rw [hinv.prefixes]
    exact hbrowsing.inert_iff hinv.asks.current hcrumb

/-! ### an instance -/

/-- Alice may see `/home`. -/
def homeCaller : Access := sampleCaller [] ["/home".toList]

theorem browsing_sample :
    Browsing sampleDigest (inPlay sampleEmitted (utf8 "/home".toList)) sampleApi homeCaller where
  restricted := by decide
  resolved := resolved_sampleCaller (by decide)
  scanned := scanned_sampleApi
  canonical _ := canonical_sample
  rendered := by
    have hroot : getParentPath (utf8 "/home".toList) = some (utf8 "/".toList) := by decide
    have hhome : getParentPath (utf8 "/home/a".toList) = some (utf8 "/home".toList) := by decide
    intro p hp
    have hutf8 : IsUtf8 p := by
      rcases hp with (rfl | rfl) | ⟨e, rfl | rfl, hup⟩ | rfl
      · exact isUtf8_utf8 _
      · exact isUtf8_utf8 _
      · rw [hroot] at hup
        cases hup
        exact isUtf8_utf8 _
      · rw [hhome] at hup
        cases hup
        exact isUtf8_utf8 _
      · exact isUtf8_utf8 _
    rwa [(isUtf8_iff p).mp hutf8]
  prefixes := by
    have hprefixes : ∀ p ∈ homeCaller.prefixes, p = "/home".toList := by decide
    intro p hp
    rw [hprefixes p hp]
    exact Or.inl (Or.inl rfl)

/-- What the server answers to the listing of `/home`. -/
def homeReply : Fetched (List Entry) :=
  respondFiles (listDirectory sampleDigest sampleApi homeCaller (utf8 "/home".toList) true
    (childrenQuery sampleDigest sampleApi (utf8 "/home".toList) true))

/-- The page opens, and `/home` is listed. -/
theorem clicks_granted_home :
    ∃ p : Page, p.browser.entries.map (·.path) = ["/home/a".toList] ∧
      ((∀ c ∈ p.browser.lists, homeCaller.allows (utf8 c.query.path) = true ∧
          ∀ message, c.reply ≠ some (.error (.api message 403))) ∧
        (∀ c ∈ p.browser.details, homeCaller.allows (utf8 c.query.path) = true ∧
          ∀ message, c.reply ≠ some (.error (.api message 403))) ∧
        ∀ i crumb, (crumbs p.browser.currentPath)[i]? = some crumb →
          (Inert p.prefixes p.browser.currentPath i crumb ↔
            i + 1 = (crumbs p.browser.currentPath).length ∨
              homeCaller.allows (utf8 crumb) = false)) := by
  have hopened : Reachable Page.step (Clicks sampleDigest sampleApi homeCaller)
      (Page.init (some homeCaller.prefixes)) _ := .next (a := .effect) .init trivial rfl
  have hserved : ∀ c ∈ (send (listRequest "/home".toList)
        ([] : List (Call ApiRequest (Except Thrown (List Entry))))).head?,
      ListServed sampleDigest sampleApi homeCaller c.query homeReply := by
    intro c hc
    cases hc
    exact .answered _ (List.Perm.refl _)
  have hlisted : Reachable Page.step (Clicks sampleDigest sampleApi homeCaller)
      (Page.init (some homeCaller.prefixes)) _ :=
    .next (a := .listed 0 homeReply) hopened hserved rfl
  exact ⟨_, by decide +kernel, clicks_granted browsing_sample (by decide) hlisted⟩

end FileBrowser

end Cuttlefish
