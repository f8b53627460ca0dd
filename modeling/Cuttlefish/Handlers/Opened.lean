import Cuttlefish.Admin.Template
import Cuttlefish.Handlers.Confined

/-!
# Cuttlefish.Handlers.Opened

What becomes of an entry that is shown: `fs_ui` asks for its metadata by the
path it was shown with.

A path that is not UTF-8 is shown as a rendering.  `opened_iff` says that this
is the only way to lose an entry between two endpoints: whatever a listing or
a search returns is answered with the same metadata by the endpoint its type
selects, exactly if its path is UTF-8.
-/

namespace Cuttlefish

/-! ## rendered paths -/

theorem fromUtf8Lossy_eq_nil {b : Bytes} (h : fromUtf8Lossy b = []) : b = [] := by
  by_contra hb
  rw [fromUtf8Lossy_step hb] at h
  contradiction

theorem fromUtf8Lossy_singleton_dot {b : Bytes} {t : Text} (h : fromUtf8Lossy b = '.' :: t) :
    ∃ rest, b = 46 :: rest ∧ fromUtf8Lossy rest = t := by
  have hchar : String.utf8EncodeChar '.' = [46] := by decide
  have hsplit : fromUtf8Lossy b = [] ++ '.' :: t := h
  obtain ⟨b₁, b₂, rfl, hnil, ht⟩ :=
    exists_split_of_fromUtf8Lossy (s := 46) (by decide) hchar hsplit
  exact ⟨b₂, by rw [fromUtf8Lossy_eq_nil hnil]; rfl, ht⟩

/-- A rendered segment is a segment. -/
theorem isSegment_fromUtf8Lossy {c : Bytes} (h : IsComponent c) :
    IsSegment (fromUtf8Lossy c) where
  ne_nil hnil := h.ne_nil (fromUtf8Lossy_eq_nil hnil)
  slash_not_mem := by
    intro hmem
    have hchar : String.utf8EncodeChar '/' = [slash] := by decide
    obtain ⟨t₁, t₂, hsplit⟩ := List.append_of_mem hmem
    obtain ⟨b₁, b₂, rfl, -⟩ := exists_split_of_fromUtf8Lossy (by decide) hchar hsplit
    exact h.slash_not_mem (by simp)
  ne_dot := by
    intro hdot
    obtain ⟨rest, rfl, hrest⟩ := fromUtf8Lossy_singleton_dot hdot
    exact h.ne_dot (by rw [fromUtf8Lossy_eq_nil hrest]; rfl)
  ne_dotdot := by
    intro hdotdot
    obtain ⟨rest, rfl, hrest⟩ := fromUtf8Lossy_singleton_dot hdotdot
    obtain ⟨rest', rfl, hrest'⟩ := fromUtf8Lossy_singleton_dot hrest
    exact h.ne_dotdot (by rw [fromUtf8Lossy_eq_nil hrest']; rfl)

/-- A path is rendered segment by segment. -/
theorem fromUtf8Lossy_absPath (cs : List Bytes) :
    fromUtf8Lossy (absPath cs) = textPath (cs.map fromUtf8Lossy) := by
  have hchar : String.utf8EncodeChar '/' = [slash] := by decide
  have hjoin : fromUtf8Lossy ([slash].intercalate cs) =
      ['/'].intercalate (cs.map fromUtf8Lossy) := by
    induction cs with
    | nil => rfl
    | cons c cs ih =>
        cases cs with
        | nil => simp
        | cons c' cs =>
            rw [List.intercalate_cons_cons, List.append_assoc, List.singleton_append,
              fromUtf8Lossy_append_ascii (by decide) hchar, ih]
            simp [List.intercalate_cons_cons]
  have habs : absPath cs = [] ++ slash :: [slash].intercalate cs := rfl
  rw [habs, fromUtf8Lossy_append_ascii (by decide) hchar, hjoin]
  rfl

/-- What a canonical path is rendered as is canonical. -/
theorem canonical_fromUtf8Lossy {p : Bytes} (h : Canonical p) :
    Canonical (utf8 (fromUtf8Lossy p)) := by
  rw [h.eq_absPath, fromUtf8Lossy_absPath]
  refine canonical_textPath fun s hs => ?_
  obtain ⟨c, hc, rfl⟩ := List.mem_map.mp hs
  exact isSegment_fromUtf8Lossy (h.isComponent c hc)

/-! ## entries -/

/-- The exact bytes of an entry's path. -/
def FileInfo.raw (f : FileInfo) : Bytes := f.pathRaw.getD (utf8 f.path)

/-- The handler behind `fsApi.getEntryStats`: directories go to one endpoint,
everything else to the other. -/
def entryStats (d : Digest) (db : ApiDb) (a : Access) (f : FileInfo) :
    Except ApiError FileInfo :=
  if f.fileType = 2 then getDirStats d db a (utf8 f.path) true
  else getFileStats d db a (utf8 f.path)

/-- An entry that is shown, and the row it was read from. -/
structure ShownAs (a : Access) (db : ApiDb) (x : IndexRow) (f : FileInfo) : Prop where
  mem : x ∈ db.filesystemIndex
  info_eq : f.withAggregates none = (db.entryRow x).info
  visible : a.role = .restricted → x.VisibleTo a

namespace ShownAs

variable {a : Access} {db : ApiDb} {x : IndexRow} {f : FileInfo} (h : ShownAs a db x f)
include h

theorem path_eq : f.path = x.path := congrArg FileInfo.path h.info_eq

theorem pathRaw_eq : f.pathRaw = x.pathRaw := congrArg FileInfo.pathRaw h.info_eq

theorem fileType_eq : f.fileType = x.fileType := congrArg FileInfo.fileType h.info_eq

theorem raw_eq : f.raw = x.raw := by rw [FileInfo.raw, IndexRow.raw, h.path_eq, h.pathRaw_eq]

end ShownAs

section Shown

variable {d : Digest} {paths : Set Bytes} {db : ApiDb} {a : Access}

/-- Rows of the tables, scanned. -/
theorem exists_shown {includeStats : Bool} {r : EntryRow} {f : FileInfo}
    (hr : r ∈ (if includeStats then fromEntriesWithStats db else fromEntries db))
    (hf : f.withAggregates none = r.info)
    (hvisible : a.role = .restricted → r.file.VisibleTo a) : ∃ x, ShownAs a db x f := by
  rw [joined_eq] at hr
  obtain ⟨x, hx, rfl⟩ := List.mem_map.mp hr
  rw [file_rowOf] at hvisible
  refine ⟨x, hx, ?_, hvisible⟩
  rw [hf]
  cases includeStats <;> rfl

theorem withAggregates_of_scanRow {includeStats : Bool} {r : EntryRow} {f : FileInfo}
    (h : scanRow includeStats r = some f) : f.withAggregates none = r.info := by
  unfold scanRow at h
  split_ifs at h
  · obtain ⟨s, -, rfl⟩ := Option.map_eq_some_iff.mp h
    rfl
  · cases h
    rfl

/-- What a listing shows. -/
theorem shown_of_listing (hscan : Scanned d paths db) {path : Bytes} (hpath : path ∈ paths)
    {includeStats : Bool} {rows : List EntryRow}
    (hrows : rows.Perm (childrenQuery d db path includeStats)) {files : List FileInfo}
    (h : listDirectory d db a path includeStats rows = .ok files) {f : FileInfo} (hf : f ∈ files) :
    ∃ x, ShownAs a db x f := by
  unfold listDirectory at h
  dsimp only at h
  split_ifs at h with hnil hallows hempty
  cases h
  obtain ⟨r, hr, hscanned⟩ := List.mem_filterMap.mp hf
  obtain ⟨hmem, hchild⟩ := List.mem_filter.mp (hrows.subset hr)
  refine exists_shown hmem (withAggregates_of_scanRow hscanned) fun hrole => ?_
  rw [joined_eq] at hmem
  obtain ⟨x, hx, rfl⟩ := List.mem_map.mp hmem
  rw [isChildOf, decide_eq_true_eq, file_rowOf] at hchild
  rw [file_rowOf]
  exact visible_of_child hrole hscan hallows hpath hx hchild

/-- **What an answer shows** was read from a row of the index, which the
caller may see. -/
theorem shown_of_answers (hscan : Scanned d paths db) {float : Float64} {server : Server}
    {req : ReadRequest} (hpath : ∀ path ∈ req.path?, path ∈ paths) {files : List FileInfo}
    (h : Answers d float server db a req (.files files)) {f : FileInfo} (hf : f ∈ files) :
    ∃ x, ShownAs a db x f := by
  cases req with
  | list path includeStats =>
      obtain ⟨rows, hrows, hfiles⟩ := h
      cases hlist : listDirectory d db a path includeStats rows with
      | error e => simp [hlist, ReadAnswer.ofFiles] at hfiles
      | ok found =>
          rw [hlist, ReadAnswer.ofFiles] at hfiles
          cases hfiles
          exact shown_of_listing hscan (hpath path rfl) hrows hlist hf
  | fileStats path =>
      unfold Answers at h
      cases hfile : getFileStats d db a path <;> simp [hfile, ReadAnswer.ofFile] at h
  | dirStats path includeStats =>
      unfold Answers at h
      cases hfile : getDirStats d db a path includeStats <;> simp [hfile, ReadAnswer.ofFile] at h
  | search req =>
      obtain ⟨filter, args, hfilter, -, -, page, stats, hpage, -, rfl⟩ := AnswersSearch.page h
      have hbare := List.mem_map_of_mem (f := fun f => f.withAggregates none) hf
      rw [map_withAggregates_response] at hbare
      obtain ⟨f', hf', hsame⟩ := List.mem_map.mp hbare
      obtain ⟨r, hr, hscanned⟩ := List.mem_filterMap.mp hf'
      obtain ⟨hmem, hselects⟩ := List.mem_filter.mp (hpage.subset hr)
      have hinfo : f.withAggregates none = r.info :=
        hsame.symm.trans (withAggregates_of_scanRow hscanned)
      refine exists_shown hmem hinfo fun hrole => ?_
      refine visible_of_selects hrole hscan hfilter ?_ hselects
      rw [ApiDb.searchRows, joined_eq] at hmem
      obtain ⟨x, hx, rfl⟩ := List.mem_map.mp hmem
      rwa [file_rowOf]

/-- What is shown may be asked for. -/
theorem ShownAs.allows {x : IndexRow} {f : FileInfo} (hshown : ShownAs a db x f)
    (hscan : Scanned d paths db) (hcanonical : ∀ p ∈ paths, Canonical p) :
    a.allows (utf8 f.path) = true := by
  have hlinked := hscan.linked x hshown.mem
  by_cases hrole : a.role = .restricted
  · have hrendered : Canonical (utf8 f.path) := by
      rw [hshown.path_eq, hlinked.path_eq]
      exact canonical_fromUtf8Lossy (hcanonical x.raw hlinked.emitted)
    rw [allows_iff_coveredBy hrole hrendered, hshown.path_eq]
    exact hshown.visible hrole
  · rw [Access.allows, if_pos hrole]

end Shown

/-! ## opening an entry -/

section Opened

variable {d : Digest} {paths : Set Bytes} {db : ApiDb} {a : Access}

theorem find_entry (d : Digest) (db : ApiDb) (path : Bytes) :
    ((fromEntries db).find? fun r => r.file.pathHash = pathHash d path) =
      (db.filesystemIndex.find? (pathHash d path)).map db.entryRow := by
  rw [fromEntries_eq, List.find?_map]
  rfl

/-- Metadata come from the row under the hash of the path. -/
theorem exists_row_of_entryStats {f g : FileInfo} (h : entryStats d db a f = .ok g) :
    ∃ y ∈ db.filesystemIndex, y.pathHash = pathHash d (utf8 f.path) ∧
      g.withAggregates none = (db.entryRow y).info := by
  unfold entryStats getDirStats getFileStats at h
  rw [find_entry] at h
  cases hfind : db.filesystemIndex.find? (pathHash d (utf8 f.path)) with
  | none =>
      simp only [hfind, Option.map_none] at h
      split_ifs at h
  | some y =>
      obtain ⟨hy, hhash⟩ := Table.find?_eq_some.mp hfind
      refine ⟨y, hy, hhash, ?_⟩
      simp only [hfind, Option.map_some] at h
      split_ifs at h <;> cases h <;> rfl

/-- The entry whose path was hashed is served, by the endpoint of its type. -/
theorem entryStats_of_find {f : FileInfo} {x : IndexRow} (hne : utf8 f.path ≠ [])
    (hallows : a.allows (utf8 f.path) = true)
    (hfind : db.filesystemIndex.find? (pathHash d (utf8 f.path)) = some x)
    (htype : f.fileType = x.fileType) :
    ∃ g, entryStats d db a f = .ok g ∧ g.withAggregates none = (db.entryRow x).info := by
  unfold entryStats getDirStats getFileStats
  simp only [find_entry, hfind, Option.map_some, if_neg hne, if_neg (not_not_intro hallows)]
  by_cases hdir : f.fileType = 2
  · rw [if_pos hdir, if_neg (not_not_intro (htype ▸ hdir))]
    exact ⟨_, rfl, rfl⟩
  · rw [if_neg hdir, if_neg (htype ▸ hdir)]
    exact ⟨_, rfl, rfl⟩

end Opened

/-- **What is shown can be opened**, unless its path is not UTF-8.  Take an
index that any scans, crashes and clean-ups led to, and any entry of an answer
to a listing or a search of any caller: asked for by the path it was shown
with, it comes back with the same metadata exactly if this is its path. -/
theorem opened_iff {d : Digest} {float : Float64} {server : Server} {paths : Set Bytes}
    {db : ApiDb} {a : Access} {req : ReadRequest} {files : List FileInfo}
    (hscan : Scanned d paths db) (hcanonical : ∀ p ∈ paths, Canonical p)
    (hpath : ∀ path ∈ req.path?, path ∈ paths)
    (h : Answers d float server db a req (.files files)) {f : FileInfo} (hf : f ∈ files)
    (hrendered : utf8 f.path ∈ paths) :
    (∃ g, entryStats d db a f = .ok g ∧ g.withAggregates none = f.withAggregates none) ↔
      IsUtf8 f.raw := by
  obtain ⟨x, hshown⟩ := shown_of_answers hscan hpath h hf
  have hlinked := hscan.linked x hshown.mem
  have hisUtf8 : IsUtf8 f.raw ↔ utf8 f.path = x.raw := by
    rw [isUtf8_iff, hshown.raw_eq, hshown.path_eq, hlinked.path_eq]
  rw [hisUtf8]
  constructor
  · intro hopened
    obtain ⟨g, hg, hsame⟩ := hopened
    obtain ⟨y, hy, hhash, hinfo⟩ := exists_row_of_entryStats hg
    have hylinked := hscan.linked y hy
    -- the row that was served is the one whose exact path is the rendering
    have hyraw : y.raw = utf8 f.path := hscan.inPlay.free hylinked.emitted hrendered
      (hylinked.pathHash_eq.symm.trans hhash)
    have hxy : (db.entryRow y).info = (db.entryRow x).info :=
      hinfo.symm.trans (hsame.trans hshown.info_eq)
    have hraw : y.raw = x.raw := by
      have hpathRaw : y.pathRaw = x.pathRaw := congrArg FileInfo.pathRaw hxy
      have hpath : y.path = x.path := congrArg FileInfo.path hxy
      rw [IndexRow.raw, IndexRow.raw, hpathRaw, hpath]
    exact hyraw.symm.trans hraw
  · intro hraw
    have hhash : x.pathHash = pathHash d (utf8 f.path) := by
      rw [hlinked.pathHash_eq, ← hraw, pathHash_eq]
    have hne : utf8 f.path ≠ [] := by
      rw [hraw]
      intro hnil
      have habs := hlinked.absolute
      simp [hnil] at habs
    obtain ⟨g, hg, hinfo⟩ := entryStats_of_find hne (hshown.allows hscan hcanonical)
      (Table.find?_eq_some.mpr ⟨hshown.mem, hhash⟩) hshown.fileType_eq
    exact ⟨g, hg, hinfo.trans hshown.info_eq.symm⟩

theorem canonical_sample {p : Bytes} (h : p ∈ inPlay sampleEmitted (utf8 "/home".toList)) :
    Canonical p := by
  have hroot : getParentPath (utf8 "/home".toList) = some (utf8 "/".toList) := by decide
  have hhome : getParentPath (utf8 "/home/a".toList) = some (utf8 "/home".toList) := by decide
  rcases h with (rfl | rfl) | ⟨e, rfl | rfl, hup⟩ | rfl
  · decide
  · decide
  · rw [hroot] at hup
    cases hup
    decide
  · rw [hhome] at hup
    cases hup
    decide
  · decide

/-- Bob may see all of `/home`. -/
def homeAccess : Access :=
  { user := "bob".toList, role := .restricted, prefixes := ["/home".toList] }

theorem opened_iff_home :
    ∃ f : FileInfo, f.path = "/home/a".toList ∧
      ((∃ g, entryStats sampleDigest sampleApi homeAccess f = .ok g ∧
        g.withAggregates none = f.withAggregates none) ↔ IsUtf8 f.raw) := by
  have hlist : Answers sampleDigest sampleFloat sampleServer sampleApi homeAccess
      (.list (utf8 "/home".toList) false)
      (.files ((childrenQuery sampleDigest sampleApi (utf8 "/home".toList) false).filterMap
        (scanRow false))) := ⟨_, List.Perm.refl _, rfl⟩
  obtain ⟨f, hf, hshown⟩ : ∃ f ∈ (childrenQuery sampleDigest sampleApi (utf8 "/home".toList)
      false).filterMap (scanRow false), f.path = "/home/a".toList := by decide
  refine ⟨f, hshown, opened_iff scanned_sampleApi (fun _ => canonical_sample)
    (fun _ h => by cases h; exact Or.inl (Or.inl rfl)) hlist hf ?_⟩
  rw [hshown]
  exact Or.inl (Or.inr rfl)

end Cuttlefish
