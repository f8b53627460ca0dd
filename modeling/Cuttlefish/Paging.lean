import Mathlib.Data.List.Perm.Basic
import Mathlib.Data.List.Range
import Mathlib.Data.List.Nodup
import Mathlib.Data.Nat.Find

/-!
# Cuttlefish.Paging

`ORDER BY … LIMIT … OFFSET …`, asked page by page.

A server sorts by a total preorder `le` and returns rows that sort equal in
an order of its own, chosen afresh for each query.  `pagesTile_iff` says when
a client that asks for page after page sees every row exactly once: if no row
is lost on the way, and no two rows that sort equal stand on either side of a
page boundary.
-/

namespace Cuttlefish

variable {α : Type}

/-- An order in which the rows may come back. -/
structure OrderedBy (le : α → α → Bool) (rows sorted : List α) : Prop where
  perm : sorted.Perm rows
  pairwise : sorted.Pairwise fun x y => le x y = true

/-- `LIMIT limit OFFSET offset`. -/
def pageOf (limit offset : Nat) (sorted : List α) : List α := (sorted.drop offset).take limit

/-- What page `k` of `limit` rows shows, when the server chose `orders k`. -/
def pageShown (shown : α → Bool) (limit : Nat) (orders : Nat → List α) (k : Nat) : List α :=
  (pageOf limit (k * limit) (orders k)).filter shown

/-- Whatever the server chooses, asking for pages until one is empty returns
every row exactly once. -/
def PagesTile (le : α → α → Bool) (shown : α → Bool) (limit : Nat) (rows : List α) : Prop :=
  ∀ orders : Nat → List α, (∀ k, OrderedBy le rows (orders k)) →
    ∃ n, pageShown shown limit orders n = [] ∧
      (∀ k < n, pageShown shown limit orders k ≠ []) ∧
      ((List.range n).flatMap (pageShown shown limit orders)).Perm rows

/-- In no order the server may choose does a page begin with a row that sorts
equal to the last one of the page before. -/
def NoTieAcross (le : α → α → Bool) (limit : Nat) (rows : List α) : Prop :=
  ∀ sorted, OrderedBy le rows sorted → ∀ k x y, 0 < k →
    sorted[k * limit - 1]? = some x → sorted[k * limit]? = some y → le y x = false

section Order

variable {le : α → α → Bool} {rows s t : List α}

theorem OrderedBy.length (h : OrderedBy le rows s) : s.length = rows.length := h.perm.length_eq

/-- What a predicate that only gets false along the list selects, is a
prefix. -/
theorem filter_eq_take {p : α → Bool} (h : s.Pairwise fun x y => p y = true → p x = true) :
    s.filter p = s.take (s.countP p) := by
  induction s with
  | nil => rfl
  | cons x s ih =>
      rw [List.pairwise_cons] at h
      by_cases hx : p x = true
      · rw [List.filter_cons_of_pos hx, List.countP_cons_of_pos hx, List.take_succ_cons, ih h.2]
      · have hnone : ∀ y ∈ x :: s, ¬ p y = true := by
          rw [List.forall_mem_cons]
          exact ⟨hx, fun y hy hpy => hx (h.1 y hy hpy)⟩
        rw [List.filter_eq_nil_iff.mpr hnone, List.countP_eq_zero.mpr hnone, List.take_zero]

variable (htrans : ∀ x y z, le x y = true → le y z = true → le x z = true)
  (htotal : ∀ x y, (le x y || le y x) = true)

include htotal in
theorem OrderedBy.le_of_le (hs : OrderedBy le rows s) {i j : Nat} {x y : α} (hij : i ≤ j)
    (hx : s[i]? = some x) (hy : s[j]? = some y) : le x y = true := by
  obtain ⟨hi, rfl⟩ := List.getElem?_eq_some_iff.mp hx
  obtain ⟨hj, rfl⟩ := List.getElem?_eq_some_iff.mp hy
  cases Nat.lt_or_eq_of_le hij with
  | inl hlt => exact List.pairwise_iff_getElem.mp hs.pairwise i j hi hj hlt
  | inr heq =>
      subst heq
      simpa using htotal s[i] s[i]

include htrans htotal

/-- Two orders agree on what stands in front of a boundary that no tie
crosses. -/
theorem take_perm (hs : OrderedBy le rows s) (ht : OrderedBy le rows t) {i : Nat} {x y : α}
    (hx : s[i]? = some x) (hy : s[i + 1]? = some y) (hstrict : le y x = false) :
    (s.take (i + 1)).Perm (t.take (i + 1)) := by
  -- the rows that sort before `y`
  let p : α → Bool := fun z => !le y z
  have hclosed : ∀ {l : List α}, (l.Pairwise fun x y => le x y = true) →
      l.Pairwise fun x y => p y = true → p x = true := by
    intro l hl
    refine hl.imp fun {a b} hab hb => ?_
    by_contra ha
    have hya : le y a = true := by simpa [p] using ha
    simp [p, htrans y a b hya hab] at hb
  have hfront : ∀ z ∈ s.take (i + 1), p z = true := by
    intro z hz
    obtain ⟨j, hj, hz⟩ := List.mem_take_iff_getElem.mp hz
    have hzx : le z x = true :=
      hs.le_of_le htotal (i := j) (j := i) (by omega) (by rw [← hz]; simp) hx
    by_contra hnot
    have hyz : le y z = true := by simpa [p] using hnot
    simp [htrans y z x hyz hzx] at hstrict
  have hback : ∀ z ∈ s.drop (i + 1), ¬ p z = true := by
    intro z hz
    obtain ⟨j, hj, hz⟩ := List.mem_drop_iff_getElem.mp hz
    have hyz : le y z = true :=
      hs.le_of_le htotal (i := i + 1) (j := i + 1 + j) (by omega) hy (by rw [← hz]; simp)
    simp [p, hyz]
  have hlen : i + 1 ≤ s.length := by
    have hi := (List.getElem?_eq_some_iff.mp hx).1
    omega
  have hcount : s.countP p = i + 1 := by
    have hsplit : s.countP p = (s.take (i + 1)).countP p + (s.drop (i + 1)).countP p := by
      rw [← List.countP_append, List.take_append_drop]
    rw [hsplit, List.countP_eq_length.mpr hfront, List.countP_eq_zero.mpr hback,
      List.length_take, Nat.min_eq_left hlen, Nat.add_zero]
  rw [← hcount, ← filter_eq_take (hclosed hs.pairwise), hs.perm.countP_eq p,
    ← ht.perm.countP_eq p, ← filter_eq_take (hclosed ht.pairwise)]
  exact (hs.perm.trans ht.perm.symm).filter p

/-- Then every page shows the same rows, whatever the order. -/
theorem pageOf_perm {limit : Nat} (hties : NoTieAcross le limit rows)
    (hs : OrderedBy le rows s) (ht : OrderedBy le rows t) (k : Nat) :
    (pageOf limit (k * limit) s).Perm (pageOf limit (k * limit) t) := by
  have hlength : s.length = t.length := hs.length.trans ht.length.symm
  have hfront : ∀ k, (s.take (k * limit)).Perm (t.take (k * limit)) := by
    intro k
    by_cases hk : k * limit = 0
    · simp [hk]
    by_cases hlen : s.length ≤ k * limit
    · rw [List.take_of_length_le hlen, List.take_of_length_le (hlength ▸ hlen)]
      exact hs.perm.trans ht.perm.symm
    · have hx : s[k * limit - 1]? = some s[k * limit - 1] := List.getElem?_eq_getElem (by omega)
      have hy : s[k * limit]? = some s[k * limit] := List.getElem?_eq_getElem (by omega)
      have hpos : 0 < k := by
        by_contra hzero
        simp [Nat.eq_zero_of_not_pos hzero] at hk
      have hstrict := hties s hs k _ _ hpos hx hy
      have hpred : k * limit - 1 + 1 = k * limit := by omega
      have hperm := take_perm htrans htotal hs ht hx (by rw [hpred]; exact hy) hstrict
      rwa [hpred] at hperm
  have hpages := hfront (k + 1)
  rw [Nat.succ_mul, List.take_add, List.take_add] at hpages
  exact (List.perm_append_left_iff _).mp
    (((hfront k).symm.append_right _).trans hpages)

omit htrans htotal in
/-- The pages of one order are the order. -/
theorem flatMap_pageOf (s : List α) (limit n : Nat) :
    ((List.range n).flatMap fun k => pageOf limit (k * limit) s) = s.take (n * limit) := by
  induction n with
  | zero => simp
  | succ n ih =>
      rw [List.range_succ, List.flatMap_append, ih, Nat.succ_mul, List.take_add]
      simp [pageOf]

omit htrans htotal in
theorem mem_pageOf {limit offset : Nat} {x : α} :
    x ∈ pageOf limit offset s ↔ ∃ j < limit, s[offset + j]? = some x := by
  rw [pageOf, List.mem_iff_getElem?]
  constructor
  · intro h
    obtain ⟨j, hj⟩ := h
    rw [List.getElem?_take, List.getElem?_drop] at hj
    split_ifs at hj with hlt
    exact ⟨j, hlt, hj⟩
  · intro h
    obtain ⟨j, hlt, hj⟩ := h
    exact ⟨j, by rw [List.getElem?_take, List.getElem?_drop, if_pos hlt, hj]⟩

omit htrans htotal in
/-- A page is empty if it starts behind the last row. -/
theorem pageOf_eq_nil {limit k : Nat} (hlimit : 0 < limit) :
    pageOf limit (k * limit) s = [] ↔ s.length ≤ k * limit := by
  rw [pageOf, List.take_eq_nil_iff, List.drop_eq_nil_iff]
  omega

variable {shown : α → Bool} {limit : Nat}

/-- Without a tie across a boundary and with nothing lost, pages tile. -/
theorem pagesTile_of_noTieAcross (hlimit : 0 < limit) (hshown : ∀ r ∈ rows, shown r = true)
    (hties : NoTieAcross le limit rows) : PagesTile le shown limit rows := by
  intro orders horders
  have hpage : ∀ k, pageShown shown limit orders k = pageOf limit (k * limit) (orders k) := by
    intro k
    refine List.filter_eq_self.mpr fun r hr => hshown r ?_
    obtain ⟨j, -, hj⟩ := mem_pageOf.mp hr
    exact (horders k).perm.subset (List.mem_of_getElem? hj)
  have hempty : ∀ k, pageShown shown limit orders k = [] ↔ rows.length ≤ k * limit := by
    intro k
    rw [hpage, pageOf_eq_nil hlimit, (horders k).length]
  have hend : ∃ n, rows.length ≤ n * limit := ⟨rows.length, Nat.le_mul_of_pos_right _ hlimit⟩
  refine ⟨Nat.find hend, (hempty _).mpr (Nat.find_spec hend), fun k hk => ?_, ?_⟩
  · exact mt (hempty k).mp (Nat.find_min hend hk)
  · have hall : ((List.range (Nat.find hend)).flatMap (pageShown shown limit orders)).Perm
        ((List.range (Nat.find hend)).flatMap fun k => pageOf limit (k * limit) (orders 0)) := by
      refine List.Perm.flatMap_left _ fun k _ => ?_
      rw [hpage]
      exact pageOf_perm htrans htotal hties (horders k) (horders 0) k
    rw [flatMap_pageOf, List.take_of_length_le
      (by rw [(horders 0).length]; exact Nat.find_spec hend)] at hall
    exact hall.trans (horders 0).perm

/-- Some order exists. -/
theorem exists_orderedBy (rows : List α) : ∃ sorted, OrderedBy le rows sorted :=
  ⟨rows.mergeSort le, List.mergeSort_perm rows le, List.pairwise_mergeSort htrans htotal rows⟩

/-- Pages that tile lose no row. -/
theorem shown_of_pagesTile (h : PagesTile le shown limit rows) : ∀ r ∈ rows, shown r = true := by
  intro r hr
  obtain ⟨sorted, hsorted⟩ := exists_orderedBy htrans htotal rows
  obtain ⟨n, -, -, hperm⟩ := h (fun _ => sorted) fun _ => hsorted
  obtain ⟨k, -, hk⟩ := List.mem_flatMap.mp (hperm.symm.subset hr)
  exact (List.mem_filter.mp hk).2

omit htrans htotal in
/-- Two neighbours that sort equal may come back the other way round. -/
theorem OrderedBy.swap {front back : List α} {x y : α}
    (h : OrderedBy le rows (front ++ x :: y :: back)) (htie : le y x = true) :
    OrderedBy le rows (front ++ y :: x :: back) where
  perm := ((List.Perm.swap x y back).append_left front).trans h.perm
  pairwise := by
    have hpair := h.pairwise
    simp only [List.pairwise_append, List.pairwise_cons, List.mem_cons, forall_eq_or_imp]
      at hpair ⊢
    grind

omit htrans htotal in
/-- With nothing lost, a page shows its rows. -/
theorem mem_pageShown {orders : Nat → List α} (horders : ∀ k, OrderedBy le rows (orders k))
    (hshown : ∀ r ∈ rows, shown r = true) {k : Nat} {x : α}
    (hx : x ∈ pageOf limit (k * limit) (orders k)) : x ∈ pageShown shown limit orders k := by
  refine List.mem_filter.mpr ⟨hx, hshown x ?_⟩
  obtain ⟨j, -, hj⟩ := mem_pageOf.mp hx
  exact (horders k).perm.subset (List.mem_of_getElem? hj)

/-- Pages that tile do not show a row again. -/
theorem PagesTile.not_mem_later (hlimit : 0 < limit) (hrows : rows.Nodup)
    (h : PagesTile le shown limit rows) {orders : Nat → List α}
    (horders : ∀ k, OrderedBy le rows (orders k)) {j k : Nat} {x : α} (hjk : j < k)
    (hj : x ∈ pageShown shown limit orders j) : x ∉ pageShown shown limit orders k := by
  intro hk
  obtain ⟨n, hn, -, hperm⟩ := h orders horders
  -- a page behind an empty one is empty
  have hkn : k < n := by
    by_contra hle
    have hlen : (orders n).length = (orders k).length :=
      (horders n).length.trans (horders k).length.symm
    have hempty : pageOf limit (n * limit) (orders n) = [] := by
      rw [List.eq_nil_iff_forall_not_mem]
      intro z hz
      have hshow := mem_pageShown horders (shown_of_pagesTile htrans htotal h) hz
      rw [hn] at hshow
      simp at hshow
    have hmul : n * limit ≤ k * limit := Nat.mul_le_mul_right limit (by omega)
    have hlast : pageOf limit (k * limit) (orders k) = [] := by
      rw [pageOf_eq_nil hlimit] at hempty ⊢
      omega
    have hmem := (List.mem_filter.mp hk).1
    rw [hlast] at hmem
    contradiction
  have hnodup := hperm.nodup_iff.mpr hrows
  have hdisjoint := (List.nodup_flatMap.mp hnodup).2
  have hpages := List.pairwise_iff_getElem.mp hdisjoint j k
    (by rw [List.length_range]; omega) (by rw [List.length_range]; omega) hjk
  rw [List.getElem_range, List.getElem_range] at hpages
  exact hpages hj hk

/-- Pages that tile have no tie across a boundary. -/
theorem noTieAcross_of_pagesTile (hlimit : 0 < limit) (hrows : rows.Nodup)
    (h : PagesTile le shown limit rows) : NoTieAcross le limit rows := by
  intro s hs k x y hk hx hy
  by_contra hne
  have htie : le y x = true := by simpa using hne
  have hshown := shown_of_pagesTile htrans htotal h
  -- the server swaps the two rows for page `k` only
  obtain ⟨i, hi⟩ : ∃ i, k * limit = i + 1 := ⟨k * limit - 1, by
    have hpos := Nat.mul_pos hk hlimit
    omega⟩
  rw [hi, Nat.add_sub_cancel] at hx
  rw [hi] at hy
  obtain ⟨hlt, rfl⟩ := List.getElem?_eq_some_iff.mp hy
  obtain ⟨hlt', rfl⟩ := List.getElem?_eq_some_iff.mp hx
  have hsplit : s = s.take i ++ s[i] :: s[i + 1] :: s.drop (i + 2) := by
    rw [← List.drop_eq_getElem_cons hlt, ← List.drop_eq_getElem_cons hlt', List.take_append_drop]
  have hswap := OrderedBy.swap (hsplit ▸ hs) htie
  let t : List α := s.take i ++ s[i + 1] :: s[i] :: s.drop (i + 2)
  let orders : Nat → List α := fun j => if j = k then t else s
  have horders : ∀ j, OrderedBy le rows (orders j) := by
    intro j
    by_cases hj : j = k
    · simpa [orders, hj] using hswap
    · simpa [orders, hj] using hs
  have hbefore : s[i] ∈ pageShown shown limit orders (k - 1) := by
    refine mem_pageShown horders hshown (mem_pageOf.mpr ⟨limit - 1, by omega, ?_⟩)
    have hindex : (k - 1) * limit + (limit - 1) = i := by
      have hle : limit ≤ k * limit := Nat.le_mul_of_pos_left limit hk
      rw [Nat.sub_mul, Nat.one_mul]
      omega
    have hother : k - 1 ≠ k := by omega
    simp only [orders, if_neg hother, hindex]
    exact List.getElem?_eq_getElem hlt'
  have hafter : s[i] ∈ pageShown shown limit orders k := by
    refine mem_pageShown horders hshown (mem_pageOf.mpr ⟨0, hlimit, ?_⟩)
    have hfront : (s.take i).length = i := by
      rw [List.length_take]
      omega
    have hswapped : orders k = t := if_pos rfl
    rw [hswapped, hi, Nat.add_zero, List.getElem?_append_right (by omega), hfront]
    simp
  -- the row comes back twice
  exact h.not_mem_later htrans htotal hlimit hrows horders (by omega) hbefore hafter

/-- **When pages tile**: exactly if no row is lost on the way and no tie
crosses a page boundary. -/
theorem pagesTile_iff (hlimit : 0 < limit) (hrows : rows.Nodup) :
    PagesTile le shown limit rows ↔
      (∀ r ∈ rows, shown r = true) ∧ NoTieAcross le limit rows := by
  constructor
  · intro h
    exact ⟨shown_of_pagesTile htrans htotal h,
      noTieAcross_of_pagesTile htrans htotal hlimit hrows h⟩
  · intro h
    exact pagesTile_of_noTieAcross htrans htotal hlimit h.1 h.2

/-! ## ties, counted -/

omit htrans htotal in
/-- The rows a predicate selects that only gets false along the list are the
first ones. -/
theorem lt_countP_iff {p : α → Bool} (h : s.Pairwise fun x y => p y = true → p x = true) {i : Nat}
    {x : α} (hx : s[i]? = some x) : i < s.countP p ↔ p x = true := by
  have hfilter := filter_eq_take h
  constructor
  · intro hi
    have hmem : x ∈ s.filter p := by
      rw [hfilter, List.mem_iff_getElem?]
      exact ⟨i, by rw [List.getElem?_take, if_pos hi, hx]⟩
    exact (List.mem_filter.mp hmem).2
  · intro hp
    by_contra hi
    -- the predicate is true of `x`, so of all rows in front of it
    have hall : ∀ y ∈ s.take (i + 1), p y = true := by
      intro y hy
      obtain ⟨j, hj, rfl⟩ := List.mem_take_iff_getElem.mp hy
      obtain ⟨hlt, hget⟩ := List.getElem?_eq_some_iff.mp hx
      by_cases hij : j = i
      · subst hij
        rw [hget]
        exact hp
      · exact List.pairwise_iff_getElem.mp h j i (by omega) hlt (by omega) (by rw [hget]; exact hp)
    have hcount : (s.take (i + 1)).countP p = (s.take (i + 1)).length :=
      List.countP_eq_length.mpr hall
    have hlen : (s.take (i + 1)).length = i + 1 := by
      have hlt := (List.getElem?_eq_some_iff.mp hx).1
      rw [List.length_take]
      omega
    have hle : (s.take (i + 1)).countP p ≤ s.countP p := (List.take_sublist _ _).countP_le
    omega

/-- No page boundary falls inside a group of rows that sort equal: for no row
does a multiple of the page size lie strictly between the number of rows in
front of its group and the number up to its end. -/
def NoTieSplit (le : α → α → Bool) (limit : Nat) (rows : List α) : Prop :=
  ∀ r ∈ rows, ∀ k, ¬ ((rows.countP fun x => !le r x) < k * limit ∧
    k * limit < rows.countP fun x => le x r)

omit htotal in
theorem OrderedBy.pairwise_before (hs : OrderedBy le rows s) (r : α) :
    s.Pairwise fun x y => (!le r y) = true → (!le r x) = true := by
  refine hs.pairwise.imp fun {x y} hxy hy => ?_
  by_contra hx
  have hrx : le r x = true := by simpa using hx
  simp [htrans r x y hrx hxy] at hy

omit htotal in
theorem OrderedBy.pairwise_upTo (hs : OrderedBy le rows s) (r : α) :
    s.Pairwise fun x y => le y r = true → le x r = true :=
  hs.pairwise.imp fun {x y} hxy hy => htrans x y r hxy hy

/-- **Ties across a boundary** are groups split by it. -/
theorem noTieAcross_iff (hlimit : 0 < limit) :
    NoTieAcross le limit rows ↔ NoTieSplit le limit rows := by
  constructor
  · intro h r hr k hk
    obtain ⟨s, hs⟩ := exists_orderedBy htrans htotal rows
    have hbefore := hs.pairwise_before htrans r
    have hupTo := hs.pairwise_upTo htrans r
    rw [← hs.perm.countP_eq, ← hs.perm.countP_eq] at hk
    have hlen := hk.2.trans_le List.countP_le_length
    have hx : s[k * limit - 1]? = some s[k * limit - 1] := List.getElem?_eq_getElem (by omega)
    have hy : s[k * limit]? = some s[k * limit] := List.getElem?_eq_getElem hlen
    have hpos : 0 < k := by
      by_contra hzero
      simp [Nat.eq_zero_of_not_pos hzero] at hk
    have hyr : le s[k * limit] r = true := (lt_countP_iff hupTo hy).mp hk.2
    have hrx : le r s[k * limit - 1] = true := by
      have hnot := mt (lt_countP_iff hbefore hx).mpr (by omega)
      simpa using hnot
    have hstrict := h s hs k _ _ hpos hx hy
    simp [htrans _ _ _ hyr hrx] at hstrict
  · intro h s hs k x y hk hx hy
    by_contra hne
    have htie : le y x = true := by simpa using hne
    have hbefore := hs.pairwise_before htrans y
    have hupTo := hs.pairwise_upTo htrans y
    have hmem : y ∈ rows := hs.perm.subset (List.mem_of_getElem? hy)
    have hself : le y y = true := by simpa using htotal y y
    refine h y hmem k ?_
    rw [← hs.perm.countP_eq, ← hs.perm.countP_eq]
    have hfront := mt (lt_countP_iff hbefore hx).mp (by simp [htie])
    have hback := (lt_countP_iff hupTo hy).mpr hself
    have hpos := Nat.mul_pos hk hlimit
    omega

/-- Rows that all sort differently have no ties to split. -/
theorem noTieSplit_of_strict (hlimit : 0 < limit) (hrows : rows.Nodup)
    (hstrict : ∀ x ∈ rows, ∀ y ∈ rows, le x y = true → le y x = true → x = y) :
    NoTieSplit le limit rows := by
  refine (noTieAcross_iff htrans htotal hlimit).mp fun s hs k x y hk hx hy => ?_
  by_contra hne
  have htie : le y x = true := by simpa using hne
  have hle : le x y = true := hs.le_of_le htotal (Nat.sub_le _ 1) hx hy
  have hmem : ∀ {i : Nat} {z : α}, s[i]? = some z → z ∈ rows := fun hz =>
    hs.perm.subset (List.mem_of_getElem? hz)
  have hsame := hstrict x (hmem hx) y (hmem hy) hle htie
  subst hsame
  have hlt := (List.getElem?_eq_some_iff.mp hx).1
  have hindex := (List.getElem?_inj hlt (hs.perm.nodup_iff.mpr hrows)).mp (hx.trans hy.symm)
  have hpos := Nat.mul_pos hk hlimit
  omega

end Order

/-! ## pages as a client sees them -/

/-- Whatever pages the server chooses, a client that asks until it gets
nothing has got every row exactly once; `scan` turns a row into what the
client gets, or loses it. -/
def ReturnedOnce {β : Type} (page : Nat → List α → Prop) (scan : α → Option β)
    (rows : List α) : Prop :=
  ∀ pages : Nat → List α, (∀ k, page k (pages k)) →
    ∃ n, (pages n).filterMap scan = [] ∧ (∀ k < n, (pages k).filterMap scan ≠ []) ∧
      ((List.range n).flatMap fun k => (pages k).filter fun r => (scan r).isSome).Perm rows

theorem filterMap_eq_nil_iff_filter {β : Type} {scan : α → Option β} {rows : List α} :
    rows.filterMap scan = [] ↔ rows.filter (fun r => (scan r).isSome) = [] := by
  simp [List.filterMap_eq_nil_iff, List.filter_eq_nil_iff]

/-- **When a client gets every row once**: exactly if every row scans and no
boundary splits a tie. -/
theorem returnedOnce_iff {β : Type} {page : Nat → List α → Prop} {scan : α → Option β}
    {rows : List α} {le : α → α → Bool} {limit : Nat}
    (htrans : ∀ x y z, le x y = true → le y z = true → le x z = true)
    (htotal : ∀ x y, (le x y || le y x) = true) (hlimit : 0 < limit) (hrows : rows.Nodup)
    (hpage : ∀ k p, page k p ↔ ∃ sorted, OrderedBy le rows sorted ∧
      p = pageOf limit (k * limit) sorted) :
    ReturnedOnce page scan rows ↔
      (∀ r ∈ rows, (scan r).isSome = true) ∧ NoTieSplit le limit rows := by
  rw [← noTieAcross_iff htrans htotal hlimit, ← pagesTile_iff htrans htotal hlimit hrows]
  constructor
  · intro h orders horders
    have hpages : ∀ k, page k (pageOf limit (k * limit) (orders k)) := fun k =>
      (hpage k _).mpr ⟨orders k, horders k, rfl⟩
    obtain ⟨n, hend, hbefore, hperm⟩ := h _ hpages
    refine ⟨n, filterMap_eq_nil_iff_filter.mp hend, fun k hk => ?_, hperm⟩
    exact mt filterMap_eq_nil_iff_filter.mpr (hbefore k hk)
  · intro h pages hpages
    choose orders horders hpage using fun k => (hpage k _).mp (hpages k)
    obtain ⟨n, hend, hbefore, hperm⟩ := h orders horders
    have hshown : pageShown (fun r => (scan r).isSome) limit orders =
        fun k => (pages k).filter fun r => (scan r).isSome := by
      funext k
      rw [pageShown, ← hpage]
    rw [hshown] at hend hbefore hperm
    refine ⟨n, filterMap_eq_nil_iff_filter.mpr hend, fun k hk => ?_, hperm⟩
    exact mt filterMap_eq_nil_iff_filter.mp (hbefore k hk)

end Cuttlefish
