import Cuttlefish.Handlers
import Cuttlefish.Run
import Cuttlefish.Search
import Mathlib.Data.Set.List

/-!
# Cuttlefish.Admin

The admin endpoint for access grants: what `access_grants` can hold.

A grant's path prefix is cleaned when it is stored, and never again: `{user}`
is filled in on every request.  `canonical_of_grantsReachable` is all later
code knows about a prefix.
-/

namespace Cuttlefish

/-- The body of `POST /api/admin/grants`. -/
structure GrantBody where
  groupType : Text
  groupName : Text
  pathPrefix : Text
  deriving DecidableEq, Repr

/-- `idp` for clients that predate Unix-group grants. -/
def parseGroupType (groupType : Text) : Option GroupType :=
  if groupType = [] ∨ groupType = "idp".toList then some .idp
  else if groupType = "unix".toList then some .unix
  else none

/-- `path.Clean` on a text. -/
def cleanText (p : Text) : Text := fromUtf8Lossy (clean (utf8 p))

/-- The grant a body asks for. -/
def GrantBody.grant (body : GrantBody) : Except ApiError Grant :=
  let group := trimSpace body.groupName
  let pathPrefix := trimSpace body.pathPrefix
  match parseGroupType body.groupType with
  | none => .error (.badRequest "group_type must be \"idp\" or \"unix\"".toList)
  | some groupType =>
      if group = [] ∨ ¬ ['/'] <+: pathPrefix then
        .error (.badRequest
          "group_name is required and path_prefix must be an absolute path".toList)
      else if groupType = .unix ∧ group = grantEveryone then
        .error (.badRequest
          "\"*\" (everyone) is an IdP-group grant; use group_type \"idp\"".toList)
      else .ok ⟨groupType, group, cleanText pathPrefix⟩

/-- `POST /api/admin/grants`: the unique index refuses a second copy. -/
def adminGrantsPost (grants : List Grant) (body : GrantBody) : Except ApiError (List Grant) :=
  match body.grant with
  | .error e => .error e
  | .ok g =>
      if g ∈ grants then .error (.conflict "that group already has this prefix".toList)
      else .ok (grants ++ [g])

inductive GrantAction where
  | post (body : GrantBody)
  | delete (g : Grant)
  deriving DecidableEq, Repr

/-- One request to the endpoint; a refused one changes nothing. -/
def grantsNext (grants : List Grant) : GrantAction → Option (List Grant)
  | .post body =>
      match adminGrantsPost grants body with
      | .ok grants => some grants
      | .error _ => some grants
  | .delete g => some (grants.erase g)

/-- The contents `access_grants` can have. -/
def GrantsReachable (grants : List Grant) : Prop :=
  Reachable grantsNext (fun _ _ => True) [] grants

/-! ## stored prefixes are canonical -/

/-- Only `/` is encoded with a separator. -/
theorem slash_not_mem_utf8EncodeChar {c : Char} (hc : c ≠ '/') :
    slash ∉ String.utf8EncodeChar c := by
  intro h
  have hslash : String.utf8EncodeChar '/' = [slash] := by decide
  exact hc (eq_of_mem_utf8EncodeChar (by decide) hslash h)

theorem slash_not_mem_utf8 {t : Text} (ht : '/' ∉ t) : slash ∉ utf8 t := by
  induction t with
  | nil => simp
  | cons c t ih =>
      rw [List.mem_cons, not_or] at ht
      have hc : slash ∉ String.utf8EncodeChar c := slash_not_mem_utf8EncodeChar (Ne.symm ht.1)
      simp [hc, ih ht.2]

theorem utf8_intercalate (segs : List Text) :
    utf8 (['/'].intercalate segs) = [slash].intercalate (segs.map utf8) := by
  have hslash : utf8 ['/'] = [slash] := by decide
  induction segs with
  | nil => rfl
  | cons s segs ih =>
      cases segs with
      | nil => simp
      | cons s' segs =>
          rw [List.intercalate_cons_cons, utf8_append, utf8_append, ih, hslash]
          simp [List.intercalate_cons_cons]

/-- The absolute path with the given segments. -/
def textPath (segs : List Text) : Text := '/' :: ['/'].intercalate segs

theorem utf8_textPath (segs : List Text) : utf8 (textPath segs) = absPath (segs.map utf8) := by
  have hslash : String.utf8EncodeChar '/' = [slash] := by decide
  rw [textPath, utf8_cons, utf8_intercalate, hslash]
  rfl

/-- Splitting an encoded text is splitting the text. -/
theorem splitOn_utf8 (t : Text) : (utf8 t).splitOn slash = (t.splitOn '/').map utf8 := by
  have hsep : ∀ c ∈ (t.splitOn '/').map utf8, slash ∉ c := by
    intro c hc
    obtain ⟨s, hs, rfl⟩ := List.mem_map.mp hc
    exact slash_not_mem_utf8 (not_mem_of_mem_splitOn hs)
  have hne : (t.splitOn '/').map utf8 ≠ [] := by simp [List.splitOn_ne_nil]
  have hparts : [slash].intercalate ((t.splitOn '/').map utf8) = utf8 t := by
    rw [← utf8_intercalate, List.intercalate_splitOn]
  rw [← hparts]
  exact List.splitOn_intercalate slash hsep hne

/-- Cleaning keeps components only. -/
theorem mem_of_mem_cleanStack {c : Bytes} {cs out : List Bytes}
    (h : c ∈ cleanStack true cs out) : c ∈ cs ∨ c ∈ out := by
  induction cs generalizing out with
  | nil => exact Or.inr h
  | cons c' cs ih =>
      rw [cleanStack] at h
      split_ifs at h with hskip hup
      · have hmem := ih h
        grind
      · have hmem := ih h
        have hparent : ∀ x ∈ parentStack true out, x ∈ out := by
          intro x hx
          cases out with
          | nil => simp [parentStack] at hx
          | cons top rest =>
              rw [parentStack] at hx
              split_ifs at hx with htop
              · simpa [htop] using hx
              · exact List.mem_cons_of_mem top hx
        grind
      · have hmem := ih h
        grind

/-- Cleaning a text loses no bytes to decoding. -/
theorem utf8_cleanText {p : Text} (h : ['/'] <+: p) : utf8 (cleanText p) = clean (utf8 p) := by
  have habs : [slash] <+: utf8 p := utf8_prefix_utf8.mpr h
  have htext : ∀ c ∈ (cleanStack true ((utf8 p).splitOn slash) []).reverse,
      c ∈ Set.range utf8 := by
    intro c hc
    cases mem_of_mem_cleanStack (List.mem_reverse.mp hc) with
    | inl hin =>
        rw [splitOn_utf8, List.mem_map] at hin
        obtain ⟨s, -, hs⟩ := hin
        exact ⟨s, hs⟩
    | inr hin => simp at hin
  have hrange := Set.range_list_map utf8
  have hsegs : (cleanStack true ((utf8 p).splitOn slash) []).reverse ∈
      Set.range (List.map utf8) := by
    rw [hrange]
    exact htext
  obtain ⟨segs, hsegs⟩ := hsegs
  have hutf8 : IsUtf8 (clean (utf8 p)) := by
    refine ⟨textPath segs, ?_⟩
    rw [utf8_textPath, hsegs, clean_eq_absPath habs]
  exact (isUtf8_iff _).mp hutf8

theorem canonical_of_grant {body : GrantBody} {g : Grant} (h : body.grant = .ok g) :
    Canonical (utf8 g.pathPrefix) := by
  unfold GrantBody.grant at h
  cases htype : parseGroupType body.groupType with
  | none => simp [htype] at h
  | some groupType =>
      rw [htype] at h
      dsimp only at h
      split_ifs at h with hshape hstar
      have habs : ['/'] <+: trimSpace body.pathPrefix := by
        by_contra hrel
        exact hshape (Or.inr hrel)
      cases h
      rw [utf8_cleanText habs]
      exact canonical_clean (utf8_prefix_utf8.mpr habs)

/-- A request adds at most the grant its body asks for. -/
theorem mem_of_grantsNext {grants grants' : List Grant} {action : GrantAction} {g : Grant}
    (h : grantsNext grants action = some grants') (hg : g ∈ grants') :
    g ∈ grants ∨ ∃ body : GrantBody, body.grant = .ok g := by
  cases action with
  | delete g' =>
      cases h
      exact Or.inl (List.mem_of_mem_erase hg)
  | post body =>
      cases hbody : body.grant with
      | error e =>
          simp only [grantsNext, adminGrantsPost, hbody, Option.some.injEq] at h
          exact Or.inl (h ▸ hg)
      | ok new =>
          by_cases hdup : new ∈ grants
          · simp only [grantsNext, adminGrantsPost, hbody, if_pos hdup, Option.some.injEq] at h
            exact Or.inl (h ▸ hg)
          · simp only [grantsNext, adminGrantsPost, hbody, if_neg hdup, Option.some.injEq] at h
            rw [← h, List.mem_append, List.mem_singleton] at hg
            cases hg with
            | inl hold => exact Or.inl hold
            | inr hnew => exact Or.inr ⟨body, hnew ▸ hbody⟩

/-- **Stored prefixes are canonical**: no sequence of requests leaves
another in `access_grants`. -/
theorem canonical_of_grantsReachable {grants : List Grant} (h : GrantsReachable grants) :
    ∀ g ∈ grants, Canonical (utf8 g.pathPrefix) := by
  refine Reachable.invariant (fun grants => ∀ g ∈ grants, Canonical (utf8 g.pathPrefix))
    (by simp) ?_ h
  intro grants action grants' _ hgrants _ hnext g hg
  cases mem_of_grantsNext hnext hg with
  | inl hold => exact hgrants g hold
  | inr hnew =>
      obtain ⟨body, hbody⟩ := hnew
      exact canonical_of_grant hbody

end Cuttlefish
