import Cuttlefish.Admin

/-!
# Cuttlefish.Admin.IdentityRules

Identity rules: what `identity_rules` can hold, and what `mapIdentity` makes
of an identity by them.

The loop keeps the best rule so far.  `foldl_betterRule_iff` says that it ends
with the longest suffix, whatever the order of the rules, and lowered
suffixes that are distinct leave no choice.  Unicode lower-casing stays a
parameter.
-/

namespace Cuttlefish

/-! ## the stored rules -/

/-- The body of `POST /api/admin/identity-rules`. -/
structure IdentityRuleBody where
  matchSuffix : Text
  replaceWith : Text
  deriving DecidableEq, Repr

/-- The rule a body asks for, lowered. -/
def IdentityRuleBody.rule (lower : Text → Text) (body : IdentityRuleBody) :
    Except ApiError IdentityRule :=
  let suffix := lower (trimSpace body.matchSuffix)
  let replacement := lower (trimSpace body.replaceWith)
  if suffix = replacement then
    .error (.badRequest
      "match_suffix and replace_with are identical; the rule would do nothing".toList)
  else if '/' ∈ replacement ∨ '\x00' ∈ replacement then
    .error (.badRequest "replace_with must not contain '/'".toList)
  else .ok ⟨suffix, replacement⟩

/-- `identity_rules`; the suffix is UNIQUE. -/
abbrev IdentityRules := Table IdentityRule.matchSuffix

/-- `POST /api/admin/identity-rules`. -/
def adminIdentityRulesPost (lower : Text → Text) (rules : IdentityRules)
    (body : IdentityRuleBody) : Except ApiError IdentityRules :=
  match body.rule lower with
  | .error e => .error e
  | .ok r =>
      if (rules.find? r.matchSuffix).isSome then
        .error (.conflict "a rule for that suffix already exists".toList)
      else .ok (rules.insertDoNothing r)

inductive IdentityRuleAction where
  | post (body : IdentityRuleBody)
  | delete (matchSuffix : Text)
  deriving DecidableEq, Repr

/-- One request to the endpoint; a refused one changes nothing. -/
def identityRulesNext (lower : Text → Text) (rules : IdentityRules) :
    IdentityRuleAction → Option IdentityRules
  | .post body =>
      match adminIdentityRulesPost lower rules body with
      | .ok rules => some rules
      | .error _ => some rules
  | .delete matchSuffix => some (rules.deleteWhere fun r => r.matchSuffix = matchSuffix)

/-- The contents `identity_rules` can have. -/
def IdentityRulesReachable (lower : Text → Text) (rules : IdentityRules) : Prop :=
  Reachable (identityRulesNext lower) (fun _ _ => True) Table.empty rules

theorem lowered_of_rule {lower : Text → Text} {body : IdentityRuleBody} {r : IdentityRule}
    (h : body.rule lower = .ok r) : r.matchSuffix ∈ Set.range lower := by
  unfold IdentityRuleBody.rule at h
  dsimp only at h
  split_ifs at h
  cases h
  exact ⟨_, rfl⟩

/-- Stored suffixes are lowered. -/
theorem lowered_of_identityRulesReachable {lower : Text → Text} {rules : IdentityRules}
    (h : IdentityRulesReachable lower rules) : ∀ r ∈ rules, r.matchSuffix ∈ Set.range lower := by
  refine h.invariant (fun rules => ∀ r ∈ rules, r.matchSuffix ∈ Set.range lower)
    (fun r hr => absurd hr (Table.not_mem_empty r)) ?_
  intro rules action rules' _ hinv _ hstep
  cases action with
  | post body =>
      rw [identityRulesNext, adminIdentityRulesPost] at hstep
      cases hrule : body.rule lower with
      | error e =>
          rw [hrule] at hstep
          cases hstep
          exact hinv
      | ok r =>
          rw [hrule] at hstep
          dsimp only at hstep
          split_ifs at hstep
          · cases hstep
            exact hinv
          · cases hstep
            intro x hx
            cases Table.mem_insertDoNothing.mp hx with
            | inl hold => exact hinv x hold
            | inr hnew => exact hnew.1 ▸ lowered_of_rule hrule
  | delete matchSuffix =>
      cases hstep
      exact fun r hr => hinv r (Table.mem_deleteWhere.mp hr).1

/-- **Lowered again, stored suffixes stay distinct.** -/
theorem nodup_lower_of_identityRulesReachable {lower : Text → Text} {rules : IdentityRules}
    (hidem : ∀ t, lower (lower t) = lower t) (h : IdentityRulesReachable lower rules) :
    (rules.rows.map fun r => lower r.matchSuffix).Nodup := by
  have hsame : (rules.rows.map fun r => lower r.matchSuffix) =
      rules.rows.map IdentityRule.matchSuffix := by
    refine List.map_congr_left fun r hr => ?_
    obtain ⟨t, ht⟩ := lowered_of_identityRulesReachable h r hr
    rw [← ht, hidem]
  rw [hsame]
  exact rules.nodup

/-! ## the longest match -/

/-- `r` has the longest suffix of `id`, in bytes, among the rules. -/
structure LongestMatch (lower : Text → Text) (id : Text) (rules : List IdentityRule)
    (r : IdentityRule) : Prop where
  mem : r ∈ rules
  isSuffix : lower r.matchSuffix <:+ id
  longest : ∀ r' ∈ rules, lower r'.matchSuffix <:+ id →
    (utf8 (lower r'.matchSuffix)).length ≤ (utf8 (lower r.matchSuffix)).length

/-- What the loop knows after `rules`. -/
def BestOf (lower : Text → Text) (id : Text) (rules : List IdentityRule) :
    Option (IdentityRule × Text) → Prop
  | none => ∀ r ∈ rules, ¬ lower r.matchSuffix <:+ id
  | some (r, s) => s = lower r.matchSuffix ∧ LongestMatch lower id rules r

/-- Suffixes of one text that are equally long are equal. -/
theorem eq_of_suffix_of_length_eq {id s t : Text} (hs : s <:+ id) (ht : t <:+ id)
    (hlen : (utf8 s).length = (utf8 t).length) : s = t := by
  have key : ∀ {s t : Text}, s <:+ t → (utf8 s).length = (utf8 t).length → s = t := by
    intro s t hst hlen
    obtain ⟨u, rfl⟩ := hst
    rw [utf8_append, List.length_append] at hlen
    have hnil : utf8 u = [] := List.length_eq_zero_iff.mp (by omega)
    rw [utf8_injective (hnil.trans utf8_nil.symm), List.nil_append]
  cases List.suffix_or_suffix_of_suffix hs ht with
  | inl hst => exact key hst hlen
  | inr hts => exact (key hts hlen.symm).symm

section Loop

variable {lower : Text → Text} {id : Text} {rules : List IdentityRule}

/-- **One step** of the loop. -/
theorem BestOf.betterRule {best : Option (IdentityRule × Text)} (h : BestOf lower id rules best)
    (r : IdentityRule) : BestOf lower id (rules ++ [r]) (betterRule lower id best r) := by
  have hlast : r ∈ rules ++ [r] := by simp
  have hall {P : IdentityRule → Prop} :
      (∀ r' ∈ rules ++ [r], P r') ↔ (∀ r' ∈ rules, P r') ∧ P r := by
    rw [List.forall_mem_append, List.forall_mem_singleton]
  unfold Cuttlefish.betterRule
  by_cases hr : lower r.matchSuffix <:+ id
  · simp only [hr, if_true]
    cases best with
    | none =>
        have hnone : ∀ r' ∈ rules, lower r'.matchSuffix <:+ id →
            (utf8 (lower r'.matchSuffix)).length ≤ (utf8 (lower r.matchSuffix)).length :=
          fun r' hr' hsuffix => absurd hsuffix (h r' hr')
        exact ⟨rfl, hlast, hr, hall.mpr ⟨hnone, fun _ => le_rfl⟩⟩
    | some b =>
        obtain ⟨b, s⟩ := b
        obtain ⟨rfl, hbest⟩ := h
        dsimp only
        split_ifs with hlt
        · have hold := fun r' hr' hsuffix => (hbest.longest r' hr' hsuffix).trans hlt.le
          exact ⟨rfl, hlast, hr, hall.mpr ⟨hold, fun _ => le_rfl⟩⟩
        · exact ⟨rfl, List.mem_append_left _ hbest.mem, hbest.isSuffix,
            hall.mpr ⟨hbest.longest, fun _ => not_lt.mp hlt⟩⟩
  · simp only [hr, if_false]
    cases best with
    | none => exact hall.mpr ⟨h, hr⟩
    | some b =>
        obtain ⟨b, s⟩ := b
        obtain ⟨hs, hbest⟩ := h
        exact ⟨hs, List.mem_append_left _ hbest.mem, hbest.isSuffix,
          hall.mpr ⟨hbest.longest, fun hsuffix => absurd hsuffix hr⟩⟩

/-- The whole loop. -/
theorem bestOf_foldl (lower : Text → Text) (id : Text) (rules : List IdentityRule) :
    BestOf lower id rules (rules.foldl (Cuttlefish.betterRule lower id) none) := by
  induction rules using List.reverseRecOn with
  | nil => exact fun r hr => absurd hr List.not_mem_nil
  | append_singleton rules r ih =>
      rw [List.foldl_append]
      exact ih.betterRule r

/-- Distinct suffixes have one longest match. -/
theorem LongestMatch.unique {r r' : IdentityRule}
    (hdistinct : (rules.map fun r => lower r.matchSuffix).Nodup)
    (h : LongestMatch lower id rules r) (h' : LongestMatch lower id rules r') : r = r' := by
  refine List.inj_on_of_nodup_map hdistinct h.mem h'.mem ?_
  exact eq_of_suffix_of_length_eq h.isSuffix h'.isSuffix
    (le_antisymm (h'.longest r h.mem h.isSuffix) (h.longest r' h'.mem h'.isSuffix))

/-- **The loop finds the longest match**, and nothing if no suffix matches. -/
theorem foldl_betterRule_iff (hdistinct : (rules.map fun r => lower r.matchSuffix).Nodup)
    {r : IdentityRule} {s : Text} :
    rules.foldl (betterRule lower id) none = some (r, s) ↔
      s = lower r.matchSuffix ∧ LongestMatch lower id rules r := by
  have hbest := bestOf_foldl lower id rules
  constructor
  · intro h
    rw [h] at hbest
    exact hbest
  · intro h
    obtain ⟨rfl, hr⟩ := h
    cases hfold : rules.foldl (Cuttlefish.betterRule lower id) none with
    | none =>
        rw [hfold] at hbest
        exact absurd hr.isSuffix (hbest r hr.mem)
    | some b =>
        obtain ⟨b, s⟩ := b
        rw [hfold] at hbest
        obtain ⟨rfl, hb⟩ := hbest
        rw [hb.unique hdistinct hr]

theorem foldl_betterRule_eq_none :
    rules.foldl (betterRule lower id) none = none ↔
      ∀ r ∈ rules, ¬ lower r.matchSuffix <:+ id := by
  have hbest := bestOf_foldl lower id rules
  cases hfold : rules.foldl (Cuttlefish.betterRule lower id) none with
  | none =>
      rw [hfold] at hbest
      exact iff_of_true rfl hbest
  | some b =>
      obtain ⟨b, s⟩ := b
      rw [hfold] at hbest
      refine iff_of_false (by simp) fun hno => hno b hbest.2.mem hbest.2.isSuffix

end Loop

/-! ## mapped identities -/

section Mapped

variable {lower : Text → Text} {identity : Text} {rules rules' : List IdentityRule}

/-- Order does not matter. -/
theorem mapIdentity_perm (hdistinct : (rules.map fun r => lower r.matchSuffix).Nodup)
    (h : rules'.Perm rules) :
    mapIdentity lower identity rules' = mapIdentity lower identity rules := by
  have hdistinct' : (rules'.map fun r => lower r.matchSuffix).Nodup :=
    (h.map _).nodup_iff.mpr hdistinct
  have hlongest : ∀ r, LongestMatch lower (lower identity) rules' r ↔
      LongestMatch lower (lower identity) rules r := by
    intro r
    constructor
    · intro hr
      exact ⟨h.subset hr.mem, hr.isSuffix, fun r' hr' => hr.longest r' (h.symm.subset hr')⟩
    · intro hr
      exact ⟨h.symm.subset hr.mem, hr.isSuffix, fun r' hr' => hr.longest r' (h.subset hr')⟩
  have hfold : rules'.foldl (betterRule lower (lower identity)) none =
      rules.foldl (betterRule lower (lower identity)) none := by
    ext b
    obtain ⟨r, s⟩ := b
    rw [foldl_betterRule_iff hdistinct', foldl_betterRule_iff hdistinct, hlongest]
  rw [mapIdentity, mapIdentity, hfold]

/-- What the longest match leaves of an identity, in characters and in bytes;
the slice lies within the identity. -/
theorem mapIdentity_of_longestMatch (hdistinct : (rules.map fun r => lower r.matchSuffix).Nodup)
    {r : IdentityRule} (h : LongestMatch lower (lower identity) rules r) :
    (utf8 (lower r.matchSuffix)).length ≤ (utf8 (lower identity)).length ∧
      utf8 (mapIdentity lower identity rules) =
        (utf8 (lower identity)).take
            ((utf8 (lower identity)).length - (utf8 (lower r.matchSuffix)).length) ++
          utf8 (lower r.replaceWith) ∧
      ∃ stem, lower identity = stem ++ lower r.matchSuffix ∧
        mapIdentity lower identity rules = stem ++ lower r.replaceWith := by
  have hfold := (foldl_betterRule_iff hdistinct).mpr ⟨rfl, h⟩
  obtain ⟨stem, hstem⟩ := h.isSuffix
  have hmapped : mapIdentity lower identity rules = stem ++ lower r.replaceWith := by
    rw [mapIdentity, hfold]
    simp [← hstem]
  refine ⟨?_, ?_, stem, hstem.symm, hmapped⟩
  · rw [← hstem, utf8_append, List.length_append]
    omega
  · rw [hmapped, ← hstem, utf8_append, utf8_append]
    simp

end Mapped

/-- **Identities are mapped by the longest matching suffix**, in any order of
the rules; without a match the domain is dropped. -/
theorem mapIdentity_spec (lower : Text → Text) (identity : Text) (rules : List IdentityRule)
    (hdistinct : (rules.map fun r => lower r.matchSuffix).Nodup) :
    (∀ rules', rules'.Perm rules →
        mapIdentity lower identity rules' = mapIdentity lower identity rules) ∧
      (∀ r, LongestMatch lower (lower identity) rules r →
        (utf8 (lower r.matchSuffix)).length ≤ (utf8 (lower identity)).length ∧
          utf8 (mapIdentity lower identity rules) =
            (utf8 (lower identity)).take
                ((utf8 (lower identity)).length - (utf8 (lower r.matchSuffix)).length) ++
              utf8 (lower r.replaceWith) ∧
          ∃ stem, lower identity = stem ++ lower r.matchSuffix ∧
            mapIdentity lower identity rules = stem ++ lower r.replaceWith) ∧
      ((∃ r ∈ rules, lower r.matchSuffix <:+ lower identity) →
        ∃ r, LongestMatch lower (lower identity) rules r) ∧
      ((∀ r ∈ rules, ¬ lower r.matchSuffix <:+ lower identity) →
        mapIdentity lower identity rules = (lower identity).takeWhile (· ≠ '@')) := by
  refine ⟨fun rules' h => mapIdentity_perm hdistinct h,
    fun r hr => mapIdentity_of_longestMatch hdistinct hr, fun hsome => ?_, fun hno => ?_⟩
  · have hbest := bestOf_foldl lower (lower identity) rules
    cases hfold : rules.foldl (betterRule lower (lower identity)) none with
    | none =>
        obtain ⟨r, hr, hsuffix⟩ := hsome
        exact absurd hsuffix (foldl_betterRule_eq_none.mp hfold r hr)
    | some b =>
        obtain ⟨r, s⟩ := b
        rw [hfold] at hbest
        exact ⟨r, hbest.2⟩
  · rw [mapIdentity, foldl_betterRule_eq_none.mpr hno]

theorem mapIdentity_spec_corp :
    mapIdentity id "anna@eu.corp.com".toList
        [⟨"@corp.com".toList, []⟩, ⟨"@eu.corp.com".toList, "@ad".toList⟩] =
      mapIdentity id "anna@eu.corp.com".toList
        [⟨"@eu.corp.com".toList, "@ad".toList⟩, ⟨"@corp.com".toList, []⟩] := by
  have hspec := mapIdentity_spec id "anna@eu.corp.com".toList
    [⟨"@eu.corp.com".toList, "@ad".toList⟩, ⟨"@corp.com".toList, []⟩] (by decide)
  exact hspec.1 _ (List.Perm.swap _ _ _)

end Cuttlefish
