import Mathlib.Data.List.Nodup
import Mathlib.Data.List.Pairwise
import Mathlib.Data.List.Perm.Basic
import Mathlib.Data.List.Sort
import Mathlib.Tactic.Common

/-!
# Paging through a sorted query

A query `ORDER BY key` returns its rows sorted by the key, and says nothing about the order of rows
with equal keys: a `Plan` is the order in which the executor happens to find the rows, and
`Plan.orderBy` sorts that order stably.  Every page is a query of its own, so every page has its own
plan.

The keys of the pages do not depend on the plans (`map_key_pages`); the rows do, as soon as a page
ends between two rows with equal keys.  `Unsplit` says that this does not happen, and
`forall_pages_perm_iff` that it is exactly the condition under which the pages together are the rows
of the query, whatever the plans.
-/

namespace Paging

/-- An order in which rows are found. -/
structure Plan (α : Type*) where
  arrange : List α → List α
  perm : ∀ rows, (arrange rows).Perm rows

variable {α κ : Type*} [LinearOrder κ]

/-- `ORDER BY key`: rows with equal keys stay in the order in which they are found. -/
def Plan.orderBy (plan : Plan α) (key : α → κ) (rows : List α) : List α :=
  (plan.arrange rows).insertionSort fun x y => key x ≤ key y

/-- `OFFSET (n - 1) * limit LIMIT limit`. -/
def page (limit n : ℕ) (rows : List α) : List α := (rows.drop ((n - 1) * limit)).take limit

/-- The number of pages of `limit` rows. -/
def pageCount (limit total : ℕ) : ℕ := (total + limit - 1) / limit

/-- The pages `1` to `k`, one after the other. -/
def pages (plans : ℕ → Plan α) (key : α → κ) (limit k : ℕ) (rows : List α) : List α :=
  (List.range' 1 k).flatMap fun n => page limit n ((plans n).orderBy key rows)

/-- The rows in front of position `b` include some, but not all of those with the key `k`. -/
def SplitAt (key : α → κ) (rows : List α) (k : κ) (b : ℕ) : Prop :=
  rows.countP (fun y => decide (key y < k)) < b ∧ b < rows.countP fun y => decide (key y ≤ k)

/-- No page ends between two rows with equal keys. -/
def Unsplit (key : α → κ) (limit : ℕ) (rows : List α) : Prop :=
  ∀ k n, ¬ SplitAt key rows k (n * limit)

variable {key : α → κ} {limit : ℕ} {rows s s' : List α}

/-! ### Sorted lists -/

/-- The rows of a query: all of them, sorted by the key. -/
structure Sorted (key : α → κ) (rows s : List α) : Prop where
  perm : s.Perm rows
  le : s.Pairwise fun x y => key x ≤ key y

theorem Plan.sorted_orderBy (plan : Plan α) (key : α → κ) (rows : List α) :
    Sorted key rows (plan.orderBy key rows) := by
  refine ⟨(List.perm_insertionSort _ _).trans (plan.perm rows), ?_⟩
  have : Std.Total fun x y : α => key x ≤ key y := ⟨fun x y => le_total (key x) (key y)⟩
  have : IsTrans α fun x y : α => key x ≤ key y := ⟨fun _ _ _ h h' => le_trans h h'⟩
  exact List.pairwise_insertionSort _ _

/-- Every sorted list of the rows is what some plan leads to. -/
theorem Sorted.exists_plan (h : Sorted key rows s) : ∃ plan : Plan α, plan.orderBy key rows = s := by
  classical
  refine ⟨⟨fun l => if l.Perm s then s else l, fun l => ?_⟩, ?_⟩
  · split
    · next hl => exact hl.symm
    · exact List.Perm.refl l
  · have harrange : (if rows.Perm s then s else rows) = s := if_pos h.perm.symm
    unfold Plan.orderBy
    dsimp only
    rw [harrange]
    exact List.Pairwise.insertionSort_eq h.le

/-- The keys in sorted order are determined by the rows. -/
theorem Sorted.map_key_eq (h : Sorted key rows s) (h' : Sorted key rows s') :
    s.map key = s'.map key := by
  have hle : (s.map key).SortedLE := (List.pairwise_map.mpr h.le).sortedLE
  have hle' : (s'.map key).SortedLE := (List.pairwise_map.mpr h'.le).sortedLE
  exact ((h.perm.trans h'.perm.symm).map key).eq_of_sortedLE hle hle'

/-- In a sorted list, the rows that satisfy a condition on small keys come first. -/
theorem take_countP_eq_filter {p : α → Bool} (h : s.Pairwise fun x y => key x ≤ key y)
    (hp : ∀ x y, key x ≤ key y → p y = true → p x = true) :
    s.take (s.countP p) = s.filter p := by
  induction s with
  | nil => rfl
  | cons x s ih =>
    obtain ⟨hx, hs⟩ := List.pairwise_cons.mp h
    by_cases hpx : p x = true
    · rw [List.countP_cons_of_pos hpx, List.filter_cons_of_pos hpx, List.take_succ_cons, ih hs]
    · -- nothing behind a large key has a small one
      have hnone : s.filter p = [] := by
        rw [List.filter_eq_nil_iff]
        exact fun y hy hpy => hpx (hp x y (hx y hy) hpy)
      rw [List.countP_cons_of_neg hpx, List.filter_cons_of_neg hpx, hnone,
        List.countP_eq_length_filter, hnone]
      rfl

/-- The positions of the rows that satisfy a condition on small keys. -/
theorem iff_lt_countP {p : α → Bool} (h : s.Pairwise fun x y => key x ≤ key y)
    (hp : ∀ x y, key x ≤ key y → p y = true → p x = true) {i : ℕ} {x : α} (hx : s[i]? = some x) :
    p x = true ↔ i < s.countP p := by
  induction s generalizing i with
  | nil => cases hx
  | cons z s ih =>
    obtain ⟨hz, hs⟩ := List.pairwise_cons.mp h
    by_cases hpz : p z = true
    · rw [List.countP_cons_of_pos hpz]
      cases i with
      | zero =>
        cases hx
        exact iff_of_true hpz (Nat.succ_pos _)
      | succ i => exact (ih hs hx).trans (Nat.succ_lt_succ_iff).symm
    · have hnone : s.countP p = 0 :=
        List.countP_eq_zero.mpr fun y hy hpy => hpz (hp z y (hz y hy) hpy)
      rw [List.countP_cons_of_neg hpz, hnone]
      refine iff_of_false (fun hpx => ?_) (Nat.not_lt_zero i)
      rcases List.mem_cons.mp (List.mem_of_getElem? hx) with rfl | hmem
      · exact hpz hpx
      · exact List.countP_eq_zero.mp hnone x hmem hpx

theorem Sorted.lt_iff (h : Sorted key rows s) (k : κ) {i : ℕ} {x : α} (hx : s[i]? = some x) :
    key x < k ↔ i < rows.countP fun y => decide (key y < k) := by
  rw [← h.perm.countP_eq, ← iff_lt_countP h.le (fun y z hle hz => ?_) hx, decide_eq_true_iff]
  exact decide_eq_true (hle.trans_lt (of_decide_eq_true hz))

theorem Sorted.le_iff (h : Sorted key rows s) (k : κ) {i : ℕ} {x : α} (hx : s[i]? = some x) :
    key x ≤ k ↔ i < rows.countP fun y => decide (key y ≤ k) := by
  rw [← h.perm.countP_eq, ← iff_lt_countP h.le (fun y z hle hz => ?_) hx, decide_eq_true_iff]
  exact decide_eq_true (hle.trans (of_decide_eq_true hz))

/-- The rows with a smaller key than `k` come first. -/
theorem Sorted.take_lt (h : Sorted key rows s) (k : κ) :
    s.take (rows.countP fun y => decide (key y < k)) = s.filter fun y => decide (key y < k) := by
  rw [← h.perm.countP_eq]
  refine take_countP_eq_filter h.le fun x y hle hy => ?_
  exact decide_eq_true (hle.trans_lt (of_decide_eq_true hy))

/-! ### Pages of one list -/

omit [LinearOrder κ] in
theorem map_page (limit n : ℕ) (rows : List α) :
    (page limit n rows).map key = page limit n (rows.map key) := by
  unfold page
  rw [List.map_take, List.map_drop]

omit [LinearOrder κ] in
/-- The positions of a page. -/
theorem mem_page {n i : ℕ} {x : α} (hx : rows[i]? = some x) (hlow : (n - 1) * limit ≤ i)
    (hhigh : i < (n - 1) * limit + limit) : x ∈ page limit n rows := by
  refine List.mem_of_getElem? (i := i - (n - 1) * limit) ?_
  rw [page, List.getElem?_take_of_lt (by omega), List.getElem?_drop, Nat.add_sub_cancel' hlow]
  exact hx

/-- The pages of one list, one after the other. -/
theorem flatMap_page (limit k : ℕ) (s : List α) :
    (List.range' 1 k).flatMap (fun n => page limit n s) = s.take (k * limit) := by
  induction k with
  | zero => rw [Nat.zero_mul, List.take_zero]; rfl
  | succ k ih =>
    rw [List.range'_1_concat, List.flatMap_append, ih, List.flatMap_singleton, Nat.succ_mul,
      List.take_add, page, Nat.add_sub_cancel_left]

theorem length_le_pageCount_mul {total : ℕ} (hlimit : 1 ≤ limit) :
    total ≤ pageCount limit total * limit := by
  have hdiv := Nat.div_add_mod (total + limit - 1) limit
  have hmod := Nat.mod_lt (total + limit - 1) hlimit
  rw [pageCount, Nat.mul_comm]
  omega

/-! ### Pages of separate queries -/

/-- The keys of the pages are the sorted keys, whatever the plans. -/
theorem map_key_pages (plans : ℕ → Plan α) {k : ℕ} (hk : rows.length ≤ k * limit)
    (h : Sorted key rows s) : (pages plans key limit k rows).map key = s.map key := by
  have hpage : ∀ n, (page limit n ((plans n).orderBy key rows)).map key =
      page limit n (s.map key) := by
    intro n
    rw [map_page, ((plans n).sorted_orderBy key rows).map_key_eq h]
  unfold pages
  rw [List.map_flatMap]
  simp only [hpage]
  rw [flatMap_page, List.take_of_length_le]
  rw [List.length_map, h.perm.length_eq]
  exact hk

/-- The pages are in the order of the keys. -/
theorem pairwise_pages (plans : ℕ → Plan α) {k : ℕ} (hk : rows.length ≤ k * limit) :
    (pages plans key limit k rows).Pairwise fun x y => key x ≤ key y := by
  have hsorted := (plans 0).sorted_orderBy key rows
  have hkeys := map_key_pages plans hk hsorted
  rw [← List.pairwise_map (f := key) (R := fun a b => a ≤ b), hkeys, List.pairwise_map]
  exact hsorted.le

theorem length_pages (plans : ℕ → Plan α) {k : ℕ} (hk : rows.length ≤ k * limit) :
    (pages plans key limit k rows).length = rows.length := by
  have hsorted := (plans 0).sorted_orderBy key rows
  rw [← List.length_map key, map_key_pages plans hk hsorted, List.length_map,
    hsorted.perm.length_eq]

/-- Two queries have the same rows in front of a position that splits no key. -/
theorem Sorted.take_perm (h : Sorted key rows s) (h' : Sorted key rows s') {b : ℕ}
    (hb : ∀ k, ¬ SplitAt key rows k b) : (s.take b).Perm (s'.take b) := by
  rcases Nat.lt_or_ge b s.length with hlt | hge
  · -- the rows in front of the position are those with a smaller key than the row there
    have hx : s[b]? = some s[b] := List.getElem?_eq_getElem hlt
    have hle := (h.le_iff (key s[b]) hx).mp le_rfl
    have hge := (h.lt_iff (key s[b]) hx).not.mp (lt_irrefl _)
    have hnot := hb (key s[b])
    have hcount : rows.countP (fun y => decide (key y < key s[b])) = b := by
      unfold SplitAt at hnot
      omega
    have htake := h.take_lt (key s[b])
    have htake' := h'.take_lt (key s[b])
    rw [hcount] at htake htake'
    rw [htake, htake']
    exact (h.perm.trans h'.perm.symm).filter _
  · have hlen : s.length = s'.length := (h.perm.trans h'.perm.symm).length_eq
    rw [List.take_of_length_le hge, List.take_of_length_le (hlen ▸ hge)]
    exact h.perm.trans h'.perm.symm

/-- A page has the same rows in two queries if neither end of it splits a key. -/
theorem Unsplit.page_perm (hunsplit : Unsplit key limit rows) (h : Sorted key rows s)
    (h' : Sorted key rows s') (n : ℕ) : (page limit n s).Perm (page limit n s') := by
  have hfront : (s.take ((n - 1) * limit)).Perm (s'.take ((n - 1) * limit)) :=
    h.take_perm h' fun k => hunsplit k (n - 1)
  have hback : (s.take ((n - 1) * limit + limit)).Perm (s'.take ((n - 1) * limit + limit)) := by
    refine h.take_perm h' fun k => ?_
    rw [← Nat.succ_mul]
    exact hunsplit k (n - 1 + 1)
  rw [List.take_add, List.take_add] at hback
  exact (List.perm_append_left_iff _).mp (hback.trans (hfront.symm.append_right _))

/-- The pages together are the rows of the query if no page splits a key. -/
theorem Unsplit.pages_perm (hunsplit : Unsplit key limit rows) (plans : ℕ → Plan α) {k : ℕ}
    (hk : rows.length ≤ k * limit) : (pages plans key limit k rows).Perm rows := by
  have h := (plans 0).sorted_orderBy key rows
  have hpages : (pages plans key limit k rows).Perm
      ((List.range' 1 k).flatMap fun n => page limit n ((plans 0).orderBy key rows)) :=
    List.Perm.flatMap_left _ fun n _ =>
      hunsplit.page_perm ((plans n).sorted_orderBy key rows) h n
  refine hpages.trans ?_
  rw [flatMap_page, List.take_of_length_le (by rw [h.perm.length_eq]; exact hk)]
  exact h.perm

/-- Two rows with equal keys around a position may be found the other way round. -/
theorem Sorted.swap {pre post : List α} {x y : α} (h : Sorted key rows (pre ++ x :: y :: post))
    (hkey : key x = key y) : Sorted key rows (pre ++ y :: x :: post) := by
  refine ⟨((List.Perm.swap x y post).append_left pre).trans h.perm, ?_⟩
  have hle := h.le
  rw [List.pairwise_append, List.pairwise_cons, List.pairwise_cons] at hle ⊢
  obtain ⟨hpre, ⟨hx, hy, hpost⟩, hcross⟩ := hle
  refine ⟨hpre, ⟨fun z hz => ?_, fun z hz => hx z (List.mem_cons_of_mem y hz), hpost⟩,
    fun z hz z' hz' => hcross z hz z' ((List.Perm.swap x y post).mem_iff.mp hz')⟩
  rcases List.mem_cons.mp hz with rfl | hz
  · exact hkey.symm.le
  · exact hy z hz

/-- The two rows on the sides of a position that splits a key. -/
theorem SplitAt.exists_sorted {k : κ} {b : ℕ} (h : SplitAt key rows k (b + 1)) :
    ∃ pre x y post, Sorted key rows (pre ++ x :: y :: post) ∧ pre.length = b ∧ key x = key y := by
  obtain ⟨hlt, hle⟩ := h
  obtain ⟨s, hs⟩ : ∃ s, Sorted key rows s :=
    ⟨_, Plan.sorted_orderBy ⟨id, fun l => List.Perm.refl l⟩ key rows⟩
  have hlen : b + 1 < s.length := by
    have hcount := List.countP_le_length (p := fun y => decide (key y ≤ k)) (l := rows)
    rw [hs.perm.length_eq]
    omega
  have hkey : ∀ (i : ℕ) (z : α), (i = b ∨ i = b + 1) → s[i]? = some z → key z = k := by
    intro i z hi hz
    refine le_antisymm ((hs.le_iff k hz).mpr (by omega)) (not_lt.mp fun hsmall => ?_)
    have hpos := (hs.lt_iff k hz).mp hsmall
    omega
  have hcut : s = s.take b ++ s[b] :: s[b + 1] :: s.drop (b + 2) := by
    conv_lhs => rw [← List.take_append_drop b s]
    rw [List.drop_eq_getElem_cons (by omega), List.drop_eq_getElem_cons hlen]
  have hx := hkey b s[b] (.inl rfl) (List.getElem?_eq_getElem (by omega))
  have hy := hkey (b + 1) s[b + 1] (.inr rfl) (List.getElem?_eq_getElem hlen)
  rw [hcut] at hs
  exact ⟨_, _, _, _, hs, List.length_take_of_le (by omega), hx.trans hy.symm⟩

/-- A row on two pages. -/
theorem not_nodup_pages {plans : ℕ → Plan α} {n m : ℕ} {x : α} (hm : n + 1 < m)
    (h : x ∈ page limit (n + 1) ((plans (n + 1)).orderBy key rows))
    (h' : x ∈ page limit (n + 2) ((plans (n + 2)).orderBy key rows)) :
    ¬ (pages plans key limit m rows).Nodup := by
  intro hnodup
  have hdisjoint := (List.nodup_flatMap.mp hnodup).2
  have : Std.Symm (Function.onFun List.Disjoint fun n =>
      page limit n ((plans n).orderBy key rows)) := ⟨fun _ _ hd _ hx hx' => hd hx' hx⟩
  exact hdisjoint.forall (List.mem_range'_1.mpr (by omega)) (List.mem_range'_1.mpr (by omega))
    (by omega : n + 1 ≠ n + 2) h h'

/-- If a page splits a key, one of its rows may be on that page and on the next one. -/
theorem exists_repeated {k : κ} {n m : ℕ} (hsplit : SplitAt key rows k (n * limit))
    (hm : rows.length ≤ m * limit) :
    ∃ plans : ℕ → Plan α, ¬ (pages plans key limit m rows).Nodup := by
  have hpos : 0 < n * limit := Nat.zero_lt_of_lt hsplit.1
  have hlimit : 0 < limit := Nat.pos_of_mul_pos_left hpos
  obtain ⟨b, hb⟩ : ∃ b, n * limit = b + 1 := ⟨n * limit - 1, by omega⟩
  obtain ⟨n, rfl⟩ : ∃ i, n = i + 1 := ⟨n - 1, by have := Nat.pos_of_mul_pos_right hpos; omega⟩
  rw [hb] at hsplit
  obtain ⟨pre, x, y, post, hsorted, hlen, hkey⟩ := hsplit.exists_sorted
  have hswap := hsorted.swap hkey
  obtain ⟨plan, hplan⟩ := hsorted.exists_plan
  obtain ⟨plan', hplan'⟩ := hswap.exists_plan
  rw [Nat.succ_mul] at hb
  have hnext : n + 1 < m := by
    have hcount := hsorted.perm.length_eq
    rw [List.length_append, List.length_cons, List.length_cons] at hcount
    refine Nat.lt_of_mul_lt_mul_right (a := limit) ?_
    rw [Nat.succ_mul]
    omega
  -- the first plan puts `x` at the end of its page, the second one at the start of the next page
  refine ⟨fun i => if i = n + 1 then plan else plan', not_nodup_pages (x := x) hnext ?_ ?_⟩
  · rw [if_pos rfl, hplan]
    refine mem_page (i := b) ?_ ?_ ?_
    · rw [List.getElem?_append_right (by omega), hlen, Nat.sub_self]
      rfl
    · rw [Nat.add_sub_cancel]
      omega
    · rw [Nat.add_sub_cancel]
      omega
  · rw [if_neg (by omega), hplan']
    have hfirst : n + 2 - 1 = n + 1 := by omega
    refine mem_page (i := b + 1) ?_ ?_ ?_
    · rw [List.getElem?_append_right (by omega), hlen, Nat.add_sub_cancel_left]
      rfl
    · rw [hfirst, Nat.succ_mul]
      omega
    · rw [hfirst, Nat.succ_mul]
      omega

/-- The pages together are the rows of the query, whatever the plans, exactly if no page splits a
key. -/
theorem forall_pages_perm_iff {k : ℕ} (hnodup : rows.Nodup) (hk : rows.length ≤ k * limit) :
    (∀ plans : ℕ → Plan α, (pages plans key limit k rows).Perm rows) ↔ Unsplit key limit rows := by
  constructor
  · intro hperm k' n hsplit
    obtain ⟨plans, hrepeated⟩ := exists_repeated hsplit hk
    exact hrepeated ((hperm plans).nodup_iff.mpr hnodup)
  · exact fun hunsplit plans => hunsplit.pages_perm plans hk

/-- Distinct keys cannot be split. -/
theorem unsplit_of_nodup (h : (rows.map key).Nodup) (limit : ℕ) : Unsplit key limit rows := by
  rintro k n ⟨hlt, hle⟩
  have hsum : rows.countP (fun y => decide (key y ≤ k)) =
      rows.countP (fun y => decide (key y < k)) + (rows.map key).count k := by
    clear h hlt hle
    induction rows with
    | nil => rfl
    | cons x rows ih =>
      rw [List.countP_cons, List.countP_cons, ih, List.map_cons, List.count_cons]
      rcases lt_trichotomy (key x) k with hx | hx | hx
      · simp [hx, hx.le, hx.ne]
        omega
      · simp [hx]
        omega
      · simp [hx.not_ge, hx.not_gt, hx.ne']
  have hone : (rows.map key).count k ≤ 1 := List.nodup_iff_count_le_one.mp h k
  omega

end Paging
