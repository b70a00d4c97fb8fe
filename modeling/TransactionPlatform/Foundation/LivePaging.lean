import TransactionPlatform.Foundation.Paging

/-!
# Paging while the table grows

The pages of a listing are queries of their own, so rows may be inserted between two of them.  A new
row in front of a page pushes rows to later pages and is pushed past the reader itself: rows are
repeated or missed, but a row that was there from the start is never skipped, since its position
only grows (`mem_livePages`).  If new rows have larger keys than all the others, the pages are those
of the last table (`livePages_eq_take`).
-/

namespace Paging

variable {α κ : Type*} [LinearOrder κ]

/-- The pages `1` to `k`, one after the other; the query for page `n` finds the table `tables n`. -/
def livePages (plans : ℕ → Plan α) (key : α → κ) (limit k : ℕ) (tables : ℕ → List α) : List α :=
  (List.range' 1 k).flatMap fun n => page limit n ((plans n).orderBy key (tables n))

variable {key : α → κ} {limit k n : ℕ} {tables : ℕ → List α} {rows rows' s s' : List α} {x : α}

/-- The rows of a page are rows of the table. -/
theorem mem_of_mem_page {plan : Plan α} (h : x ∈ page limit n (plan.orderBy key rows)) :
    x ∈ rows :=
  (plan.sorted_orderBy key rows).perm.mem_iff.mp (List.mem_of_mem_drop (List.mem_of_mem_take h))

theorem mem_livePages_iff {plans : ℕ → Plan α} :
    x ∈ livePages plans key limit k tables ↔
      ∃ n, 1 ≤ n ∧ n ≤ k ∧ x ∈ page limit n ((plans n).orderBy key (tables n)) := by
  simp only [livePages, List.mem_flatMap, List.mem_range'_1]
  refine exists_congr fun n => ?_
  rw [Nat.lt_one_add_iff, and_assoc]

/-- A page is full exactly if the rows go on to its end. -/
theorem length_page_eq_limit_iff (h1 : 1 ≤ n) (hlow : 1 ≤ limit) :
    (page limit n rows).length = limit ↔ n * limit ≤ rows.length := by
  have hend : (n - 1) * limit + limit = n * limit := by
    rw [← Nat.succ_mul, Nat.succ_eq_add_one, Nat.sub_add_cancel h1]
  rw [page, List.length_take, List.length_drop]
  omega

/-- Behind a page that is not full there are no rows. -/
theorem length_le_of_page_lt (h1 : 1 ≤ n) (h : (page limit n rows).length < limit) :
    rows.length ≤ n * limit :=
  (not_le.mp fun hle =>
    h.ne ((length_page_eq_limit_iff h1 (Nat.zero_lt_of_lt h)).mpr hle)).le

/-! ### Positions -/

/-- The number of rows with a smaller key. -/
def position (key : α → κ) (rows : List α) (x : α) : ℕ :=
  rows.countP fun y => decide (key y < key x)

theorem position_mono (h : rows.Sublist rows') (x : α) :
    position key rows x ≤ position key rows' x := h.countP_le

theorem position_lt_length (hx : x ∈ rows) : position key rows x < rows.length := by
  refine lt_of_le_of_ne List.countP_le_length fun heq => ?_
  have hself := List.countP_eq_length.mp heq x hx
  simp at hself

/-- A row that shares its key with no other row has its position in every query. -/
theorem Sorted.getElem?_position (h : Sorted key rows s) (hx : x ∈ rows)
    (hown : ∀ y ∈ rows, key y = key x → y = x) : s[position key rows x]? = some x := by
  have hlt : position key rows x < s.length := by
    rw [h.perm.length_eq]
    exact position_lt_length hx
  have hget : s[position key rows x]? = some s[position key rows x] :=
    List.getElem?_eq_getElem hlt
  have hmem : s[position key rows x] ∈ rows := h.perm.mem_iff.mp (List.getElem_mem hlt)
  -- its key is not smaller, and `x` itself is one of the rows whose key is not larger
  have hge : key x ≤ key s[position key rows x] := by
    rw [← not_lt, h.lt_iff (key x) hget]
    exact lt_irrefl _
  have hle : key s[position key rows x] ≤ key x := by
    rw [h.le_iff (key x) hget]
    have hsub : position key rows x = (rows.filter fun y => decide (key y ≤ key x)).countP
        fun y => decide (key y < key x) := by
      rw [List.countP_filter]
      refine List.countP_congr fun y _ => ?_
      simp only [Bool.and_eq_true, decide_eq_true_eq]
      exact ⟨fun hy => ⟨hy, hy.le⟩, And.left⟩
    rw [hsub, List.countP_eq_length_filter (p := fun y => decide (key y ≤ key x))]
    refine position_lt_length (List.mem_filter.mpr ⟨hx, ?_⟩)
    simp
  rw [hget, hown _ hmem (le_antisymm hle hge)]

/-! ### Nothing is skipped -/

/-- A position that only grows is on the page of some query before the end. -/
theorem exists_page_of_mono (pos : ℕ → ℕ) (hmono : ∀ n, 1 ≤ n → pos n ≤ pos (n + 1))
    (hk : pos k < k * limit) :
    ∃ n, 1 ≤ n ∧ n ≤ k ∧ (n - 1) * limit ≤ pos n ∧ pos n < n * limit := by
  induction k with
  | zero => simp at hk
  | succ k ih =>
    rcases Nat.lt_or_ge (pos (k + 1)) (k * limit) with hlt | hge
    · have hpos : 1 ≤ k := Nat.pos_of_mul_pos_right (Nat.zero_lt_of_lt hlt)
      obtain ⟨n, h1, hn, hpage⟩ := ih ((hmono k hpos).trans_lt hlt)
      exact ⟨n, h1, Nat.le_succ_of_le hn, hpage⟩
    · exact ⟨k + 1, Nat.succ_pos k, le_rfl, hge, hk⟩

/-- While rows are only inserted, a row that is there from the start and never shares its key is on
one of the pages, as soon as the pages cover the last table. -/
theorem mem_livePages (plans : ℕ → Plan α)
    (hgrow : ∀ n, 1 ≤ n → (tables n).Sublist (tables (n + 1))) (hx : x ∈ tables 1)
    (hown : ∀ y ∈ tables k, key y = key x → y = x) (hk : (tables k).length ≤ k * limit)
    (hpos : 1 ≤ k) : x ∈ livePages plans key limit k tables := by
  have hsub : ∀ m n, 1 ≤ m → m ≤ n → (tables m).Sublist (tables n) := by
    intro m n hm hmn
    induction n, hmn using Nat.le_induction with
    | base => exact List.Sublist.refl _
    | succ n hmn ih => exact ih.trans (hgrow n (hm.trans hmn))
  have hlast : x ∈ tables k := (hsub 1 k le_rfl hpos).subset hx
  obtain ⟨n, h1, hn, hlow, hhigh⟩ := exists_page_of_mono (fun n => position key (tables n) x)
    (fun n hn => position_mono (hgrow n hn) x) ((position_lt_length hlast).trans_le hk)
  refine mem_livePages_iff.mpr ⟨n, h1, hn, ?_⟩
  have hsorted := (plans n).sorted_orderBy key (tables n)
  have hget := hsorted.getElem?_position ((hsub 1 n le_rfl h1).subset hx)
    fun y hy => hown y ((hsub n k h1 hn).subset hy)
  refine mem_page hget hlow ?_
  rw [← Nat.succ_mul, Nat.succ_eq_add_one, Nat.sub_add_cancel h1]
  exact hhigh

/-! ### New rows at the end -/

/-- Rows that are already in the order of their keys, without equal keys, are found in this order. -/
theorem Plan.orderBy_of_lt (plan : Plan α) (h : rows.Pairwise fun x y => key x < key y) :
    plan.orderBy key rows = rows := by
  have hsorted := plan.sorted_orderBy key rows
  have hnodup : (rows.map key).Nodup := List.pairwise_map.mpr (h.imp fun hlt => hlt.ne)
  refine hsorted.perm.eq_of_pairwise (fun x y hx hy hxy hyx => ?_) hsorted.le
    (h.imp fun hlt => hlt.le)
  exact List.inj_on_of_nodup_map hnodup (hsorted.perm.mem_iff.mp hx) hy (le_antisymm hxy hyx)

/-- A full page is not changed by rows behind it. -/
theorem page_of_prefix (h : s <+: s') (hfull : n * limit ≤ s.length) (h1 : 1 ≤ n) :
    page limit n s = page limit n s' := by
  obtain ⟨t, rfl⟩ := h
  have hend : (n - 1) * limit + limit = n * limit := by
    rw [← Nat.succ_mul, Nat.succ_eq_add_one, Nat.sub_add_cancel h1]
  unfold page
  rw [List.drop_append_of_le_length (by omega), List.take_append_of_le_length]
  rw [List.length_drop]
  omega

/-- While rows are only inserted behind all the others, and every page but the last is full, the
pages are those of the last table. -/
theorem livePages_eq_take (plans : ℕ → Plan α) (tables : ℕ → List α)
    (hfront : ∀ n, 1 ≤ n → n ≤ k → tables n <+: tables k)
    (hlt : (tables k).Pairwise fun x y => key x < key y)
    (hfull : ∀ n, 1 ≤ n → n < k → n * limit ≤ (tables n).length) :
    livePages plans key limit k tables = (tables k).take (k * limit) := by
  rw [← flatMap_page, livePages]
  refine List.flatMap_congr fun n hn => ?_
  obtain ⟨h1, hle⟩ := List.mem_range'_1.mp hn
  have hle' : n ≤ k := by omega
  rw [(plans n).orderBy_of_lt (hlt.sublist (hfront n h1 hle').sublist)]
  rcases hle'.eq_or_lt with rfl | hlt'
  · rfl
  · exact page_of_prefix (hfront n h1 hle') (hfull n h1 hlt') h1

end Paging
