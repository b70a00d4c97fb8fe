import Mathlib.Data.List.Basic
import Mathlib.Data.List.Range
import Mathlib.Data.Nat.Notation
import Mathlib.Tactic.Common

/-!
# A stream with a consumer group

A stream is an append-only list, and an entry is identified by its position.  A consumer group hands
every entry out once as a new one, in the order of the stream, and keeps what it has handed out in a
pending list until it is acknowledged: with the consumer that got the entry last and the time of
that delivery.  A pending entry that has been idle for a while may be claimed by any consumer.

The state carries its invariant: the pending list is sorted and holds only entries that were handed
out.
-/

namespace ConsumerGroup

/-- A pending entry: its position, the consumer that got it last, and when. -/
structure Pending (γ : Type) where
  entry : ℕ
  consumer : γ
  deliveryTime : ℕ
  deriving DecidableEq

/-- A stream and its consumer group.  The first `delivered` entries have been handed out as new
ones. -/
structure Group (β γ : Type) where
  entries : List β
  created : Bool
  delivered : ℕ
  pending : List (Pending γ)
  delivered_le : delivered ≤ entries.length
  sorted : (pending.map Pending.entry).Pairwise (· < ·)
  pending_lt : ∀ e ∈ pending.map Pending.entry, e < delivered
  delivered_eq_zero : created = false → delivered = 0

/-! ### The scan of the pending list -/

section Scan

variable {γ : Type}

/-- `XAUTOCLAIM` goes through the pending list from its beginning.  It looks at no more than
`attempts` entries and takes no more than `count` of them, those that are idle for `minIdle` or
longer; an entry that is taken starts a new delivery. -/
def scan (consumer : γ) (minIdle now : ℕ) :
    ℕ → ℕ → List (Pending γ) → List (Pending γ) × List ℕ
  | 0, _, l => (l, [])
  | _ + 1, 0, l => (l, [])
  | _ + 1, _ + 1, [] => ([], [])
  | attempts + 1, count + 1, x :: l =>
    if now - x.deliveryTime < minIdle then
      (x :: (scan consumer minIdle now attempts (count + 1) l).1,
        (scan consumer minIdle now attempts (count + 1) l).2)
    else
      (⟨x.entry, consumer, now⟩ :: (scan consumer minIdle now attempts count l).1,
        x.entry :: (scan consumer minIdle now attempts count l).2)

variable (consumer : γ) (minIdle now : ℕ)

/-- The scan keeps the positions of the pending list. -/
theorem scan_map_entry (attempts count : ℕ) (l : List (Pending γ)) :
    (scan consumer minIdle now attempts count l).1.map Pending.entry = l.map Pending.entry := by
  fun_induction scan consumer minIdle now attempts count l with
  | case1 count l => rfl
  | case2 attempts l => rfl
  | case3 attempts count => rfl
  | case4 attempts count x l hidle ih => simp only [List.map_cons, ih]
  | case5 attempts count x l hidle ih => simp only [List.map_cons, ih]

/-- What the scan takes are positions of the pending list, in its order. -/
theorem scan_sublist (attempts count : ℕ) (l : List (Pending γ)) :
    (scan consumer minIdle now attempts count l).2.Sublist (l.map Pending.entry) := by
  fun_induction scan consumer minIdle now attempts count l with
  | case1 count l => exact List.nil_sublist _
  | case2 attempts l => exact List.nil_sublist _
  | case3 attempts count => exact List.Sublist.refl _
  | case4 attempts count x l hidle ih => exact ih.cons _
  | case5 attempts count x l hidle ih => exact ih.cons_cons _

/-- The scan takes only entries that have been idle long enough. -/
theorem idle_of_mem_scan (attempts count : ℕ) (l : List (Pending γ)) {e : ℕ}
    (he : e ∈ (scan consumer minIdle now attempts count l).2) :
    ∃ x ∈ l, x.entry = e ∧ minIdle ≤ now - x.deliveryTime := by
  fun_induction scan consumer minIdle now attempts count l with
  | case1 count l => cases he
  | case2 attempts l => cases he
  | case3 attempts count => cases he
  | case4 attempts count x l hidle ih =>
    obtain ⟨y, hy, h⟩ := ih he
    exact ⟨y, List.mem_cons_of_mem _ hy, h⟩
  | case5 attempts count x l hidle ih =>
    rcases List.mem_cons.mp he with rfl | he
    · exact ⟨x, List.mem_cons_self, rfl, Nat.le_of_not_lt hidle⟩
    · obtain ⟨y, hy, h⟩ := ih he
      exact ⟨y, List.mem_cons_of_mem _ hy, h⟩

/-- If everything has been idle long enough, the scan takes a prefix of the pending list. -/
theorem scan_of_idle (attempts count : ℕ) (l : List (Pending γ))
    (hidle : ∀ x ∈ l, minIdle ≤ now - x.deliveryTime) :
    (scan consumer minIdle now attempts count l).2 =
      (l.map Pending.entry).take (min attempts count) := by
  fun_induction scan consumer minIdle now attempts count l with
  | case1 count l => simp
  | case2 attempts l => simp
  | case3 attempts count => simp
  | case4 attempts count x l hx ih =>
    exact absurd (hidle x List.mem_cons_self) (Nat.not_le.mpr hx)
  | case5 attempts count x l hx ih =>
    rw [ih fun y hy => hidle y (List.mem_cons_of_mem _ hy), Nat.succ_min_succ, List.map_cons,
      List.take_succ_cons]

end Scan

namespace Group

variable {β γ : Type}

/-- The entry has been handed out and not acknowledged. -/
def IsPending (g : Group β γ) (e : ℕ) : Prop := e ∈ g.pending.map Pending.entry

instance (g : Group β γ) (e : ℕ) : Decidable (g.IsPending e) :=
  inferInstanceAs (Decidable (e ∈ g.pending.map Pending.entry))

/-- No stream and no group. -/
def empty : Group β γ := ⟨[], false, 0, [], Nat.le_refl _, .nil, (fun x hx => by cases hx), fun _ => rfl⟩

/-- `XGROUP CREATE` at the beginning of the stream, with `MKSTREAM`; a group that exists is left as
it is. -/
def create (g : Group β γ) : Group β γ :=
  { g with created := true, delivered_eq_zero := fun h => by cases h }

/-- `XADD`. -/
def xadd (g : Group β γ) (b : β) : Group β γ :=
  { g with
    entries := g.entries ++ [b]
    delivered_le := by
      rw [List.length_append]
      exact g.delivered_le.trans (Nat.le_add_right _ _) }

/-- The positions `XREADGROUP` hands out: the next `count` entries, as far as there are any. -/
def news (g : Group β γ) (count : ℕ) : List ℕ :=
  List.range' g.delivered (min count (g.entries.length - g.delivered))

theorem mem_news {g : Group β γ} {count e : ℕ} :
    e ∈ g.news count ↔
      g.delivered ≤ e ∧ e < g.delivered + min count (g.entries.length - g.delivered) :=
  List.mem_range'_1

theorem length_news (g : Group β γ) (count : ℕ) :
    (g.news count).length = min count (g.entries.length - g.delivered) :=
  List.length_range'

/-- The effect of `XREADGROUP` with the id `>`. -/
def deliverNews (g : Group β γ) (consumer : γ) (count now : ℕ) (hcreated : g.created = true) :
    Group β γ where
  entries := g.entries
  created := g.created
  delivered := g.delivered + (g.news count).length
  pending := g.pending ++ (g.news count).map fun e => ⟨e, consumer, now⟩
  delivered_le := by
    have := g.delivered_le
    rw [length_news]
    omega
  sorted := by
    have hnew : ((g.news count).map fun e => (⟨e, consumer, now⟩ : Pending γ)).map Pending.entry =
        g.news count := by
      rw [List.map_map]
      exact List.map_id _
    rw [List.map_append, hnew]
    refine List.pairwise_append.mpr ⟨g.sorted, List.pairwise_lt_range', fun a ha b hb => ?_⟩
    exact (g.pending_lt a ha).trans_le (mem_news.mp hb).1
  pending_lt e he := by
    rw [List.map_append, List.map_map, List.mem_append] at he
    rcases he with he | he
    · exact (g.pending_lt e he).trans_le (Nat.le_add_right _ _)
    · obtain ⟨a, ha, rfl⟩ := List.mem_map.mp he
      rw [length_news]
      exact (mem_news.mp ha).2
  delivered_eq_zero h := by
    rw [hcreated] at h
    cases h

/-- `XREADGROUP`: the group afterwards and the positions handed out; there is no answer without a
group. -/
def xreadgroup (g : Group β γ) (consumer : γ) (count now : ℕ) : Option (Group β γ × List ℕ) :=
  if h : g.created = true then some (g.deliverNews consumer count now h, g.news count) else none

/-- The effect of `XAUTOCLAIM` from the beginning of the pending list. -/
def claimIdle (g : Group β γ) (consumer : γ) (minIdle count now : ℕ) : Group β γ :=
  { g with
    pending := (scan consumer minIdle now (10 * count) count g.pending).1
    sorted := by
      rw [scan_map_entry]
      exact g.sorted
    pending_lt := by
      rw [scan_map_entry]
      exact g.pending_lt }

/-- `XAUTOCLAIM`: the group afterwards and the positions claimed. -/
def xautoclaim (g : Group β γ) (consumer : γ) (minIdle count now : ℕ) :
    Option (Group β γ × List ℕ) :=
  if g.created = true then
    some (g.claimIdle consumer minIdle count now,
      (scan consumer minIdle now (10 * count) count g.pending).2)
  else none

/-- `XACK`. -/
def xack (g : Group β γ) (e : ℕ) : Group β γ :=
  { g with
    pending := g.pending.filter fun x => x.entry ≠ e
    sorted := g.sorted.sublist (List.filter_sublist.map _)
    pending_lt := fun a ha => g.pending_lt a ((List.filter_sublist.map _).subset ha) }

/-- The entries at the given positions, with their positions. -/
def fetch (g : Group β γ) (es : List ℕ) : List (ℕ × β) :=
  es.filterMap fun e => g.entries[e]?.map fun b => (e, b)

variable {g g' : Group β γ} {consumer : γ} {minIdle count now e : ℕ} {es : List ℕ}

/-! ### What the operations do -/

theorem mem_fetch {b : β} : (e, b) ∈ g.fetch es ↔ e ∈ es ∧ g.entries[e]? = some b := by
  unfold fetch
  rw [List.mem_filterMap]
  constructor
  · rintro ⟨a, ha, h⟩
    obtain ⟨b', hb', heq⟩ := Option.map_eq_some_iff.mp h
    cases heq
    exact ⟨ha, hb'⟩
  · rintro ⟨he, hb⟩
    exact ⟨e, he, by rw [hb]; rfl⟩

/-- Every position of the stream is fetched. -/
theorem fetch_map_fst (h : ∀ e ∈ es, e < g.entries.length) : (g.fetch es).map Prod.fst = es := by
  unfold fetch
  induction es with
  | nil => rfl
  | cons e es ih =>
    obtain ⟨b, hb⟩ : ∃ b, g.entries[e]? = some b :=
      ⟨_, List.getElem?_eq_getElem (h e List.mem_cons_self)⟩
    rw [List.filterMap_cons, hb, Option.map_some, List.map_cons,
      ih fun a ha => h a (List.mem_cons_of_mem _ ha)]

/-- A pending entry is an entry of the stream. -/
theorem IsPending.lt_length (h : g.IsPending e) : e < g.entries.length :=
  (g.pending_lt e h).trans_le g.delivered_le

/-- What `XREADGROUP` does to the group. -/
theorem xreadgroup_eq_some (h : g.xreadgroup consumer count now = some (g', es)) :
    g.created = true ∧ es = g.news count ∧ g'.entries = g.entries ∧ g'.created = g.created ∧
      g'.delivered = g.delivered + es.length ∧
      g'.pending = g.pending ++ es.map fun e => ⟨e, consumer, now⟩ := by
  unfold xreadgroup at h
  split at h
  · next hcreated =>
    cases h
    exact ⟨hcreated, rfl, rfl, rfl, rfl, rfl⟩
  · cases h

/-- What `XAUTOCLAIM` does to the group. -/
theorem xautoclaim_eq_some (h : g.xautoclaim consumer minIdle count now = some (g', es)) :
    g.created = true ∧ es = (scan consumer minIdle now (10 * count) count g.pending).2 ∧
      g' = g.claimIdle consumer minIdle count now := by
  unfold xautoclaim at h
  split at h
  · next hcreated =>
    cases h
    exact ⟨hcreated, rfl, rfl⟩
  · cases h

/-- Claiming changes who holds a pending entry, not which entries are pending. -/
theorem isPending_claimIdle : (g.claimIdle consumer minIdle count now).IsPending e ↔ g.IsPending e := by
  unfold IsPending claimIdle
  rw [scan_map_entry]

/-- An entry that is claimed is pending and has been idle long enough. -/
theorem idle_of_xautoclaim (h : g.xautoclaim consumer minIdle count now = some (g', es))
    (he : e ∈ es) : ∃ x ∈ g.pending, x.entry = e ∧ minIdle ≤ now - x.deliveryTime := by
  obtain ⟨-, rfl, -⟩ := xautoclaim_eq_some h
  exact idle_of_mem_scan _ _ _ _ _ _ he

/-- No entry is claimed twice by one call. -/
theorem nodup_of_xautoclaim (h : g.xautoclaim consumer minIdle count now = some (g', es)) :
    es.Nodup := by
  obtain ⟨-, rfl, -⟩ := xautoclaim_eq_some h
  exact (g.sorted.imp Nat.ne_of_lt).sublist (scan_sublist _ _ _ _ _ _)

theorem isPending_of_xautoclaim (h : g.xautoclaim consumer minIdle count now = some (g', es))
    (he : e ∈ es) : g.IsPending e := by
  obtain ⟨x, hx, rfl, -⟩ := idle_of_xautoclaim h he
  exact List.mem_map_of_mem hx

/-- The entries that are claimed are in the stream. -/
theorem fetch_xautoclaim (h : g.xautoclaim consumer minIdle count now = some (g', es)) :
    (g'.fetch es).map Prod.fst = es := by
  refine fetch_map_fst fun e he => ?_
  obtain ⟨-, -, rfl⟩ := xautoclaim_eq_some h
  exact (isPending_of_xautoclaim h he).lt_length

/-- The entries that are handed out as new ones are in the stream. -/
theorem fetch_xreadgroup (h : g.xreadgroup consumer count now = some (g', es)) :
    (g'.fetch es).map Prod.fst = es := by
  refine fetch_map_fst fun e he => ?_
  obtain ⟨-, rfl, hentries, -, -, -⟩ := xreadgroup_eq_some h
  have := (mem_news.mp he).2
  have := g.delivered_le
  rw [hentries]
  omega

theorem isPending_xack {a : ℕ} : (g.xack e).IsPending a ↔ g.IsPending a ∧ a ≠ e := by
  unfold IsPending xack
  simp only [List.mem_map, List.mem_filter, decide_eq_true_eq]
  constructor
  · rintro ⟨x, ⟨hx, hne⟩, rfl⟩
    exact ⟨⟨x, hx, rfl⟩, hne⟩
  · rintro ⟨⟨x, hx, rfl⟩, hne⟩
    exact ⟨x, ⟨hx, hne⟩, rfl⟩

end Group

end ConsumerGroup
