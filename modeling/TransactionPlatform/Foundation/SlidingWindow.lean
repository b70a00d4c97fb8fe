import Mathlib.Algebra.Order.Group.Defs
import Mathlib.Data.Int.Order.Basic
import Mathlib.Data.List.Perm.Subperm
import Mathlib.Tactic.Common

/-!
# Counting entries in a sliding window

A log is a list of entries in the order in which they were admitted, and `stamp` reads the time
stamp of an entry.  `countIn` counts the entries of a half-open window, and `Bounded` says that no
window has more than `limit` of them.

A limiter keeps only a part of the log.  `Bounded.snoc` is the rule for admitting one more entry,
and `countIn_le_length` is the count behind it: as long as the part that is kept has every entry
that can share a window with the new stamp, its length bounds the number of entries in every such
window.  Stamps need not arrive in order.  `admitted` is the limiter that keeps the whole log,
against which one that forgets is compared.
-/

namespace SlidingWindow

variable {ε α : Type*} [AddCommGroup α] [LinearOrder α]

/-- The number of entries stamped in the window `(t - w, t]`. -/
def countIn (stamp : ε → α) (w t : α) (log : List ε) : ℕ :=
  log.countP fun e => decide (t - w < stamp e ∧ stamp e ≤ t)

/-- No window of the length `w` has more than `limit` entries. -/
def Bounded (stamp : ε → α) (w : α) (limit : ℤ) (log : List ε) : Prop :=
  ∀ t, (countIn stamp w t log : ℤ) ≤ limit

variable {stamp : ε → α} {w t now : α} {limit : ℤ} {log kept : List ε} {e : ε}

theorem countIn_append (log log' : List ε) :
    countIn stamp w t (log ++ log') = countIn stamp w t log + countIn stamp w t log' :=
  List.countP_append

theorem countIn_map {β : Type*} (f : β → ε) (log : List β) :
    countIn stamp w t (log.map f) = countIn (fun b => stamp (f b)) w t log :=
  List.countP_map

/-- A stamp of the window adds one to the count. -/
theorem countIn_snoc_of_mem (h : t - w < stamp e ∧ stamp e ≤ t) :
    countIn stamp w t (log ++ [e]) = countIn stamp w t log + 1 := by
  rw [countIn_append, countIn, countIn, List.countP_singleton, decide_eq_true h, if_pos rfl]

/-- A stamp outside the window does not change the count. -/
theorem countIn_snoc_of_not_mem (h : ¬ (t - w < stamp e ∧ stamp e ≤ t)) :
    countIn stamp w t (log ++ [e]) = countIn stamp w t log := by
  rw [countIn_append, countIn, countIn, List.countP_singleton, decide_eq_false h,
    if_neg Bool.false_ne_true, Nat.add_zero]

theorem Bounded.nil (h : 0 ≤ limit) : Bounded stamp w limit [] := fun _ => h

/-- One more entry is admitted while every window around its stamp has room. -/
theorem Bounded.snoc (h : Bounded stamp w limit log)
    (hroom : ∀ t, t - w < stamp e → stamp e ≤ t → (countIn stamp w t log : ℤ) < limit) :
    Bounded stamp w limit (log ++ [e]) := by
  intro t
  by_cases hmem : t - w < stamp e ∧ stamp e ≤ t
  · have hlt := hroom t hmem.1 hmem.2
    rw [countIn_snoc_of_mem hmem]
    omega
  · rw [countIn_snoc_of_not_mem hmem]
    exact h t

/-! ### The exact log -/

/-- The exact limiter: an entry is admitted while the window that ends with it has room. -/
def admitEntry (stamp : ε → α) (w : α) (limit : ℤ) (log : List ε) (e : ε) : List ε :=
  if (countIn stamp w (stamp e) log : ℤ) < limit then log ++ [e] else log

/-- The entries that the exact limiter admits. -/
def admitted (stamp : ε → α) (w : α) (limit : ℤ) (es : List ε) : List ε :=
  es.foldl (admitEntry stamp w limit) []

/-- An entry that is not admitted leaves no trace. -/
theorem admitted_of_rejected {pre post : List ε}
    (h : ¬ (countIn stamp w (stamp e) (admitted stamp w limit pre) : ℤ) < limit) :
    admitted stamp w limit (pre ++ e :: post) = admitted stamp w limit (pre ++ post) := by
  have hstep : admitEntry stamp w limit (admitted stamp w limit pre) e =
      admitted stamp w limit pre :=
    if_neg h
  unfold admitted at hstep ⊢
  rw [List.foldl_append, List.foldl_cons, hstep, List.foldl_append]

/-- At the time of the last stamp, the window has the entries that are not too old. -/
theorem countIn_eq_length_filter (h : ∀ e ∈ log, stamp e ≤ now) :
    countIn stamp w now log = (log.filter fun e => decide (now - w < stamp e)).length := by
  rw [countIn, List.countP_eq_length_filter]
  congr 1
  refine List.filter_congr fun e he => ?_
  rw [decide_eq_decide]
  exact and_iff_left (h e he)

variable [IsOrderedAddMonoid α]

/-- The entries of a window around `now` are among those that were kept. -/
theorem countIn_le_length (hnodup : log.Nodup) (hlow : t - w < now) (hhigh : now ≤ t)
    (hkept : ∀ e ∈ log, now - w < stamp e → stamp e < now + w → e ∈ kept) :
    countIn stamp w t log ≤ kept.length := by
  rw [countIn, List.countP_eq_length_filter]
  refine (List.Nodup.subperm (hnodup.filter _) fun e he => ?_).length_le
  obtain ⟨hlog, hwin⟩ := List.mem_filter.mp he
  obtain ⟨hafter, hbefore⟩ := of_decide_eq_true hwin
  have hnow : now - w ≤ t - w := sub_le_sub_right hhigh w
  have ht : t < now + w := sub_lt_iff_lt_add.mp hlow
  exact hkept e hlog (hnow.trans_lt hafter) (hbefore.trans_lt ht)

end SlidingWindow
