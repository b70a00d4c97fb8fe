import Mathlib.Algebra.Order.Group.Int
import Mathlib.Data.List.Induction
import TransactionPlatform.Foundation.SlidingWindow
import TransactionPlatform.RateLimit.RateLimiter

/-!
# The sorted set against the log of allowed calls

The limiter counts what is left in a sorted set: entries are trimmed lazily, the key expires as a
whole, and a member that is added twice counts once.  Here the set is compared with the log of all
calls that were allowed.

`bounded_of_remembered` is the rule for the limit: no clock is assumed, only that an execution finds
the entries that can share a window with it, and that its member is new.  With one clock and
distinct members the set has exactly the entries of the log that are in the window, so that every
decision is that of the exact log: `script_refines_window_log`.
-/

namespace TransactionPlatform

open SlidingWindow

/-- The entry that an allowed execution adds. -/
def Execution.entry (x : Execution) : String × ℤ := (x.member, x.now)

/-! ### One execution -/

namespace SortedSet

variable {z : SortedSet} {e : String × ℤ} {time lo hi : ℤ}

/-- The key is found expired. -/
def expired (z : SortedSet) (time : ℤ) : Bool :=
  z.expireAt.any fun deadline => decide (deadline ≤ time)

theorem expired_iff :
    z.expired time = true ↔ ∃ deadline, z.expireAt = some deadline ∧ deadline ≤ time := by
  simp [expired, Option.any_eq_true]

theorem fetch_of_expired (h : z.expired time = true) : z.fetch time = absent := by
  unfold expired at h
  unfold fetch
  rw [h, cond_true]

theorem fetch_of_not_expired (h : z.expired time = false) : z.fetch time = z := by
  unfold expired at h
  unfold fetch
  rw [h, cond_false]

theorem mem_of_mem_fetch (h : e ∈ (z.fetch time).entries) : e ∈ z.entries := by
  cases hexp : z.expired time with
  | true =>
    rw [fetch_of_expired hexp] at h
    cases h
  | false =>
    rw [fetch_of_not_expired hexp] at h
    exact h

/-- Once expired, always expired. -/
theorem expired_mono {time' : ℤ} (h : z.expired time = true) (hle : time ≤ time') :
    z.expired time' = true := by
  obtain ⟨deadline, hexp, hold⟩ := expired_iff.mp h
  exact expired_iff.mpr ⟨deadline, hexp, hold.trans hle⟩

/-- What is left after the removal of a range of scores. -/
theorem entries_zremrangebyscore (z : SortedSet) (lo hi : ℤ) :
    (z.zremrangebyscore lo hi).entries =
      z.entries.filter fun e => !decide (lo ≤ e.2 ∧ e.2 ≤ hi) := by
  unfold zremrangebyscore
  dsimp only
  split
  · next h => rw [h]; rfl
  · rfl

theorem mem_zremrangebyscore :
    e ∈ (z.zremrangebyscore lo hi).entries ↔ e ∈ z.entries ∧ ¬ (lo ≤ e.2 ∧ e.2 ≤ hi) := by
  rw [entries_zremrangebyscore, List.mem_filter, Bool.not_eq_true', decide_eq_false_iff_not]

/-- A member that is not in the set is appended. -/
theorem entries_zadd {score : ℤ} {member : String} (h : ∀ e ∈ z.entries, e.1 ≠ member) :
    (z.zadd score member).entries = z.entries ++ [(member, score)] := by
  unfold zadd
  have hall : z.entries.filter (fun e => decide (e.1 ≠ member)) = z.entries :=
    List.filter_eq_self.mpr fun e he => decide_eq_true (h e he)
  rw [hall]

end SortedSet

section Step

variable {windowMs limit : ℤ} {z : SortedSet} {x : Execution}

theorem mem_trimmed {e : String × ℤ} :
    e ∈ (trimmed windowMs z x).entries ↔
      e ∈ (z.fetch x.time).entries ∧ ¬ (0 ≤ e.2 ∧ e.2 ≤ x.now - windowMs) :=
  SortedSet.mem_zremrangebyscore

/-- The two ways through the script. -/
theorem slidingWindow_cases (windowMs limit : ℤ) (z : SortedSet) (x : Execution) :
    (limit ≤ (trimmed windowMs z x).zcard ∧
      (slidingWindow windowMs limit z x).1 = trimmed windowMs z x ∧
      (slidingWindow windowMs limit z x).2.allowed = false ∧
      (slidingWindow windowMs limit z x).2.count = (trimmed windowMs z x).zcard) ∨
    (((trimmed windowMs z x).zcard : ℤ) < limit ∧
      (slidingWindow windowMs limit z x).1 =
        ((trimmed windowMs z x).zadd x.now x.member).pexpire windowMs x.time ∧
      (slidingWindow windowMs limit z x).2.allowed = true ∧
      (slidingWindow windowMs limit z x).2.count = (trimmed windowMs z x).zcard + 1) := by
  unfold slidingWindow
  dsimp only
  split
  · next h => exact .inl ⟨h, rfl, rfl, rfl⟩
  · next h => exact .inr ⟨not_le.mp h, rfl, rfl, rfl⟩

/-- Every entry of the set after an execution was left, or is the one the execution adds. -/
theorem mem_slidingWindow {e : String × ℤ} (h : e ∈ (slidingWindow windowMs limit z x).1.entries) :
    e ∈ (trimmed windowMs z x).entries ∨ e = x.entry := by
  rcases slidingWindow_cases windowMs limit z x with ⟨-, hset, -, -⟩ | ⟨-, hset, -, -⟩
  · rw [hset] at h
    exact .inl h
  · rw [hset] at h
    unfold SortedSet.pexpire at h
    split at h
    · cases h
    · rcases List.mem_append.mp h with h | h
      · exact .inl (List.mem_of_mem_filter h)
      · exact .inr (List.mem_singleton.mp h)

/-- An allowed execution adds its entry behind what is left. -/
theorem entries_of_allowed (hw : 0 < windowMs)
    (hallowed : (slidingWindow windowMs limit z x).2.allowed = true)
    (hnew : ∀ e ∈ (trimmed windowMs z x).entries, e.1 ≠ x.member) :
    (slidingWindow windowMs limit z x).1 =
      ⟨(trimmed windowMs z x).entries ++ [x.entry], some (x.time + windowMs)⟩ := by
  rcases slidingWindow_cases windowMs limit z x with ⟨-, -, hno, -⟩ | ⟨-, hset, -, -⟩
  · rw [hno] at hallowed
    cases hallowed
  · rw [hset]
    unfold SortedSet.pexpire
    rw [if_neg (not_le.mpr hw), SortedSet.entries_zadd hnew]
    rfl

/-- The log after one execution. -/
def logged (log : List (String × ℤ)) (x : Execution) (allowed : Bool) : List (String × ℤ) :=
  bif allowed then log ++ [x.entry] else log

/-- The member is not in the set that is left, or that set is full. -/
def Fresh (windowMs limit : ℤ) (z : SortedSet) (x : Execution) : Prop :=
  (∀ e ∈ (trimmed windowMs z x).entries, e.1 ≠ x.member) ∨ limit ≤ (trimmed windowMs z x).zcard

/-- The member of an execution that is allowed is new. -/
theorem Fresh.of_allowed (h : Fresh windowMs limit z x)
    (hallowed : (slidingWindow windowMs limit z x).2.allowed = true) :
    ∀ e ∈ (trimmed windowMs z x).entries, e.1 ≠ x.member := by
  refine h.resolve_right fun hfull => ?_
  rcases slidingWindow_cases windowMs limit z x with ⟨-, -, hno, -⟩ | ⟨hroom, -, -, -⟩
  · rw [hno] at hallowed
    cases hallowed
  · exact absurd hroom (not_lt.mpr hfull)

/-- What is left has every entry of the log that can share a window with the execution. -/
def Remembered (windowMs : ℤ) (z : SortedSet) (log : List (String × ℤ)) (x : Execution) : Prop :=
  ∀ e ∈ log, x.now - windowMs < e.2 → e.2 < x.now + windowMs → e ∈ (trimmed windowMs z x).entries

/-- While the entries that matter are kept, one execution respects the limit, and adds no entry
twice. -/
theorem Remembered.logged {log : List (String × ℤ)} (h : Remembered windowMs z log x)
    (hw : 0 < windowMs) (hfresh : Fresh windowMs limit z x) (hnodup : log.Nodup)
    (hlog : Bounded Prod.snd windowMs (max limit 0) log) :
    (logged log x (slidingWindow windowMs limit z x).2.allowed).Nodup ∧
      Bounded Prod.snd windowMs (max limit 0)
        (logged log x (slidingWindow windowMs limit z x).2.allowed) := by
  rcases slidingWindow_cases windowMs limit z x with ⟨-, -, hno, -⟩ | ⟨hroom, -, hyes, -⟩
  · rw [hno]
    exact ⟨hnodup, hlog⟩
  · have hnew := hfresh.of_allowed hyes
    rw [hyes]
    constructor
    · have hout : x.entry ∉ log := fun hmem =>
        hnew _ (h x.entry hmem (sub_lt_self _ hw) (lt_add_of_pos_right _ hw)) rfl
      have hsnoc : (log ++ [x.entry]).Nodup := by
        rw [← List.concat_eq_append]
        exact hnodup.concat hout
      exact hsnoc
    · refine hlog.snoc fun t hlow hhigh => ?_
      have hle : countIn Prod.snd windowMs t log ≤ (trimmed windowMs z x).entries.length :=
        countIn_le_length hnodup hlow hhigh h
      have hcard : ((trimmed windowMs z x).entries.length : ℤ) < limit := hroom
      omega

end Step

/-! ### Sequences of executions -/

/-- A sequence taken apart at one of its members. -/
theorem eq_take_append_cons {α : Type} {xs : List α} {i : ℕ} {x : α} (h : xs[i]? = some x) :
    xs = xs.take i ++ x :: xs.drop (i + 1) := by
  obtain ⟨hlt, rfl⟩ := List.getElem?_eq_some_iff.mp h
  rw [List.getElem_cons_drop, List.take_append_drop]

section Run

variable {windowMs limit : ℤ} {z : SortedSet}

theorem afterScripts_append (z : SortedSet) (xs ys : List Execution) :
    afterScripts windowMs limit z (xs ++ ys) =
      afterScripts windowMs limit (afterScripts windowMs limit z xs) ys :=
  List.foldl_append

theorem allowedOf_append (z : SortedSet) (xs ys : List Execution) :
    allowedOf windowMs limit z (xs ++ ys) =
      allowedOf windowMs limit z xs ++
        allowedOf windowMs limit (afterScripts windowMs limit z xs) ys := by
  induction xs generalizing z with
  | nil => rfl
  | cons x xs ih =>
    rw [List.cons_append, allowedOf, allowedOf, ih]
    cases (slidingWindow windowMs limit z x).2.allowed with
    | true => rfl
    | false => rfl

/-- The log of a sequence grows by its last execution, if that is allowed. -/
theorem map_allowedOf_snoc (z : SortedSet) (xs : List Execution) (x : Execution) :
    (allowedOf windowMs limit z (xs ++ [x])).map Execution.entry =
      logged ((allowedOf windowMs limit z xs).map Execution.entry) x
        (slidingWindow windowMs limit (afterScripts windowMs limit z xs) x).2.allowed := by
  rw [allowedOf_append, List.map_append]
  unfold logged
  rw [allowedOf]
  cases (slidingWindow windowMs limit (afterScripts windowMs limit z xs) x).2.allowed with
  | true => rfl
  | false => exact List.append_nil _

theorem allowedOf_sublist (z : SortedSet) (xs : List Execution) :
    (allowedOf windowMs limit z xs).Sublist xs := by
  induction xs generalizing z with
  | nil => exact List.Sublist.refl []
  | cons x xs ih =>
    rw [allowedOf]
    cases (slidingWindow windowMs limit z x).2.allowed with
    | true => exact (ih _).cons_cons x
    | false => exact (ih _).cons x

/-- The set holds entries of earlier executions only. -/
theorem entries_subset (xs : List Execution) {e : String × ℤ}
    (h : e ∈ (afterScripts windowMs limit .absent xs).entries) : e ∈ xs.map Execution.entry := by
  induction xs using List.reverseRecOn with
  | nil => cases h
  | append_singleton xs x ih =>
    rw [List.map_append]
    rw [afterScripts_append] at h
    rcases mem_slidingWindow h with h | rfl
    · exact List.mem_append_left _ (ih (SortedSet.mem_of_mem_fetch (mem_trimmed.mp h).1))
    · exact List.mem_append_right _ (List.mem_singleton_self _)

/-- The rule for sequences: if every execution finds what it needs and brings a new member, the
limit holds. -/
theorem bounded_of_remembered {xs : List Execution} (hw : 0 < windowMs)
    (hfresh : ∀ (i : ℕ) (x : Execution), xs[i]? = some x →
      Fresh windowMs limit (afterScripts windowMs limit .absent (xs.take i)) x)
    (hrem : ∀ (i : ℕ) (x : Execution), xs[i]? = some x →
      Remembered windowMs (afterScripts windowMs limit .absent (xs.take i))
        ((allowedOf windowMs limit .absent (xs.take i)).map Execution.entry) x) (t : ℤ) :
    (countIn Execution.now windowMs t (allowedOf windowMs limit .absent xs) : ℤ) ≤
      max limit 0 := by
  have hlog : ∀ n ≤ xs.length,
      ((allowedOf windowMs limit .absent (xs.take n)).map Execution.entry).Nodup ∧
        Bounded Prod.snd windowMs (max limit 0)
          ((allowedOf windowMs limit .absent (xs.take n)).map Execution.entry) := by
    intro n hn
    induction n with
    | zero => exact ⟨List.nodup_nil, Bounded.nil (le_max_right limit 0)⟩
    | succ n ih =>
      have hrow : xs[n]? = some xs[n] := List.getElem?_eq_getElem hn
      obtain ⟨hnodup, hbound⟩ := ih (Nat.le_of_succ_le hn)
      rw [List.take_add_one, hrow, Option.toList_some, map_allowedOf_snoc]
      exact (hrem n xs[n] hrow).logged hw (hfresh n xs[n] hrow) hnodup hbound
  have hall := (hlog xs.length le_rfl).2 t
  rw [List.take_length, countIn_map] at hall
  exact hall

/-- Distinct members are new. -/
theorem fresh_of_distinct {xs : List Execution} (h : (xs.map Execution.member).Nodup) {i : ℕ}
    {x : Execution} (hi : xs[i]? = some x) :
    Fresh windowMs limit (afterScripts windowMs limit .absent (xs.take i)) x := by
  refine .inl fun e he heq => ?_
  have hmem := entries_subset (xs.take i) (SortedSet.mem_of_mem_fetch (mem_trimmed.mp he).1)
  obtain ⟨y, hy, rfl⟩ := List.mem_map.mp hmem
  rw [eq_take_append_cons hi, List.map_append, List.nodup_append] at h
  exact h.2.2 y.member (List.mem_map_of_mem hy) x.member List.mem_cons_self heq

end Run

/-! ### One clock: the exact log -/

namespace SortedSet

/-- The entries a script with the clock of Redis finds at the time `now`. -/
def window (z : SortedSet) (windowMs now : ℤ) : List (String × ℤ) :=
  ((z.fetch now).zremrangebyscore 0 (now - windowMs)).entries

theorem window_of_expired {z : SortedSet} {windowMs now : ℤ} (h : z.expired now = true) :
    z.window windowMs now = [] := by
  unfold window
  rw [fetch_of_expired h]
  rfl

theorem window_of_not_expired {z : SortedSet} {windowMs now : ℤ} (h : z.expired now = false) :
    z.window windowMs now =
      z.entries.filter fun e => !decide (0 ≤ e.2 ∧ e.2 ≤ now - windowMs) := by
  unfold window
  rw [fetch_of_not_expired h, entries_zremrangebyscore]

/-- What is found after a removal of scores. -/
theorem window_zremrangebyscore {z : SortedSet} {windowMs now lo hi : ℤ} :
    (z.zremrangebyscore lo hi).window windowMs now =
      bif z.expired now then []
      else (z.entries.filter fun e => !decide (lo ≤ e.2 ∧ e.2 ≤ hi)).filter
        fun e => !decide (0 ≤ e.2 ∧ e.2 ≤ now - windowMs) := by
  unfold zremrangebyscore
  dsimp only
  split
  · next h =>
    rw [h]
    cases z.expired now with
    | true => rfl
    | false => rfl
  · cases hexp : z.expired now with
    | true => exact window_of_expired hexp
    | false => exact window_of_not_expired hexp

/-- Trimming at one time does not change what is found later. -/
theorem window_trimmed {z : SortedSet} {windowMs now : ℤ} {x : Execution} (hx : x.time = x.now)
    (hle : x.now ≤ now) : (trimmed windowMs z x).window windowMs now = z.window windowMs now := by
  unfold trimmed
  rw [window_zremrangebyscore]
  cases hnow : z.expired x.time with
  | true =>
    rw [fetch_of_expired hnow, window_of_expired (expired_mono hnow (hx.trans_le hle))]
    rfl
  | false =>
    rw [fetch_of_not_expired hnow]
    cases hlater : z.expired now with
    | true => exact (window_of_expired hlater).symm
    | false =>
      rw [window_of_not_expired hlater, cond_false, List.filter_filter]
      refine List.filter_congr fun e _ => ?_
      rw [← Bool.not_or, ← Bool.decide_or, Bool.not_inj_iff, decide_eq_decide]
      omega

end SortedSet

/-- From the time `τ` on, a script finds the entries of the log that are in its window. -/
structure Represents (windowMs : ℤ) (z : SortedSet) (log : List (String × ℤ)) (τ : ℤ) : Prop where
  view : ∀ now, τ ≤ now →
    z.window windowMs now = log.filter fun e => decide (now - windowMs < e.2)
  le : ∀ e ∈ log, e.2 ≤ τ
  pos : ∀ e ∈ log, 0 < e.2

section Exact

variable {windowMs limit τ : ℤ} {z : SortedSet} {log : List (String × ℤ)} {x : Execution}

theorem Represents.absent (windowMs τ : ℤ) : Represents windowMs .absent [] τ :=
  ⟨fun _ _ => rfl, nofun, nofun⟩

theorem Represents.mono {τ' : ℤ} (h : Represents windowMs z log τ) (hle : τ ≤ τ') :
    Represents windowMs z log τ' :=
  ⟨fun now hnow => h.view now (hle.trans hnow), fun e he => (h.le e he).trans hle, h.pos⟩

/-- What an execution counts. -/
theorem Represents.entries (h : Represents windowMs z log τ) (hx : x.time = x.now)
    (hle : τ ≤ x.now) : (trimmed windowMs z x).entries =
      log.filter fun e => decide (x.now - windowMs < e.2) := by
  rw [← h.view x.now hle]
  unfold trimmed SortedSet.window
  rw [hx]

theorem Represents.zcard (h : Represents windowMs z log τ) (hx : x.time = x.now)
    (hle : τ ≤ x.now) : (trimmed windowMs z x).zcard = countIn Prod.snd windowMs x.now log := by
  unfold SortedSet.zcard
  rw [h.entries hx hle, countIn_eq_length_filter fun e he => (h.le e he).trans hle]

/-- A rejected execution only trims. -/
theorem Represents.trimmed (h : Represents windowMs z log τ) (hx : x.time = x.now)
    (hle : τ ≤ x.now) : Represents windowMs (trimmed windowMs z x) log x.now where
  view now hnow := by
    rw [SortedSet.window_trimmed hx hnow]
    exact h.view now (hle.trans hnow)
  le e he := (h.le e he).trans hle
  pos := h.pos

/-- An allowed execution adds its entry to the set and to the log. -/
theorem Represents.extended (h : Represents windowMs z log τ) (hx : x.time = x.now)
    (hle : τ ≤ x.now) (hpos : 0 < x.now) :
    Represents windowMs ⟨(TransactionPlatform.trimmed windowMs z x).entries ++ [x.entry],
      some (x.time + windowMs)⟩ (log ++ [x.entry]) x.now := by
  have hall : ∀ e ∈ log ++ [x.entry], e.2 ≤ x.now ∧ 0 < e.2 := by
    intro e he
    rcases List.mem_append.mp he with he | he
    · exact ⟨(h.le e he).trans hle, h.pos e he⟩
    · rw [List.mem_singleton.mp he]
      exact ⟨le_rfl, hpos⟩
  refine ⟨fun now hnow => ?_, fun e he => (hall e he).1, fun e he => (hall e he).2⟩
  by_cases hexp : x.time + windowMs ≤ now
  · -- the whole key has expired, and with it the whole window
    have hgone : (SortedSet.mk ((TransactionPlatform.trimmed windowMs z x).entries ++ [x.entry])
        (some (x.time + windowMs))).expired now = true := decide_eq_true hexp
    rw [SortedSet.window_of_expired hgone]
    symm
    rw [List.filter_eq_nil_iff]
    intro e he hdec
    have hwin := of_decide_eq_true hdec
    have hold := (hall e he).1
    omega
  · have hthere : (SortedSet.mk ((TransactionPlatform.trimmed windowMs z x).entries ++ [x.entry])
        (some (x.time + windowMs))).expired now = false := decide_eq_false hexp
    rw [SortedSet.window_of_not_expired hthere, h.entries hx hle]
    rw [List.filter_append, List.filter_append, List.filter_filter]
    congr 1
    · refine List.filter_congr fun e he => ?_
      have hpos' := h.pos e he
      rw [← decide_not, ← Bool.decide_and, decide_eq_decide]
      omega
    · refine List.filter_congr fun e he => ?_
      have hpos' := (hall e (List.mem_append_right log he)).2
      rw [← decide_not, decide_eq_decide]
      omega

/-- One execution of the script is one step of the exact log. -/
theorem Represents.step (h : Represents windowMs z log τ) (limit : ℤ) (hw : 0 < windowMs)
    (hx : x.time = x.now) (hle : τ ≤ x.now) (hpos : 0 < x.now) (hnew : ∀ e ∈ log, e.1 ≠ x.member) :
    Represents windowMs (slidingWindow windowMs limit z x).1
        (admitEntry Prod.snd windowMs limit log x.entry) x.now ∧
      logged log x (slidingWindow windowMs limit z x).2.allowed =
        admitEntry Prod.snd windowMs limit log x.entry := by
  have hcard := h.zcard hx hle
  rcases slidingWindow_cases windowMs limit z x with ⟨hfull, hset, hno, -⟩ | ⟨hroom, -, hyes, -⟩
  · rw [hcard] at hfull
    have hentry : admitEntry Prod.snd windowMs limit log x.entry = log := if_neg (not_lt.mpr hfull)
    rw [hset, hno, hentry]
    exact ⟨h.trimmed hx hle, rfl⟩
  · rw [hcard] at hroom
    have hentry : admitEntry Prod.snd windowMs limit log x.entry = log ++ [x.entry] := if_pos hroom
    have hset := entries_of_allowed hw hyes fun e he => by
      rw [h.entries hx hle] at he
      exact hnew e (List.mem_of_mem_filter he)
    rw [hset, hyes, hentry]
    exact ⟨h.extended hx hle hpos, rfl⟩

/-- The reply depends on what is left in the set only. -/
theorem reply_congr {z' : SortedSet}
    (h : (trimmed windowMs z x).entries = (trimmed windowMs z' x).entries) :
    (slidingWindow windowMs limit z x).2 = (slidingWindow windowMs limit z' x).2 := by
  unfold slidingWindow SortedSet.zcard SortedSet.oldest
  dsimp only
  rw [h]
  split
  · rfl
  · rfl

/-- Executions with one clock, in the order of their times, and with distinct members. -/
structure OneClock (xs : List Execution) : Prop where
  time : ∀ x ∈ xs, x.time = x.now
  pos : ∀ x ∈ xs, 0 < x.now
  sorted : xs.Pairwise fun x y => x.now ≤ y.now
  distinct : (xs.map Execution.member).Nodup

theorem OneClock.sublist {xs ys : List Execution} (h : OneClock ys) (hsub : xs.Sublist ys) :
    OneClock xs where
  time x hx := h.time x (hsub.subset hx)
  pos x hx := h.pos x (hsub.subset hx)
  sorted := h.sorted.sublist hsub
  distinct := h.distinct.sublist (hsub.map Execution.member)

/-- After any number of executions the set represents the exact log, and the allowed executions are
those the exact limiter admits. -/
theorem OneClock.represents {xs : List Execution} (h : OneClock xs) (limit : ℤ) (hw : 0 < windowMs)
    (hτ : ∀ x ∈ xs, x.now ≤ τ) :
    Represents windowMs (afterScripts windowMs limit .absent xs)
        (admitted Prod.snd windowMs limit (xs.map Execution.entry)) τ ∧
      (allowedOf windowMs limit .absent xs).map Execution.entry =
        admitted Prod.snd windowMs limit (xs.map Execution.entry) := by
  induction xs using List.reverseRecOn generalizing τ with
  | nil => exact ⟨.absent windowMs τ, rfl⟩
  | append_singleton xs x ih =>
    have hmem : x ∈ xs ++ [x] := List.mem_append_right xs (List.mem_singleton_self x)
    have hbefore : ∀ y ∈ xs, y.now ≤ x.now := fun y hy =>
      (List.pairwise_append.mp h.sorted).2.2 y hy x (List.mem_singleton_self x)
    obtain ⟨hrep, hlog⟩ := ih (h.sublist (List.sublist_append_left xs [x])) hbefore
    have hnew : ∀ e ∈ admitted Prod.snd windowMs limit (xs.map Execution.entry),
        e.1 ≠ x.member := by
      intro e he heq
      rw [← hlog] at he
      obtain ⟨y, hy, rfl⟩ := List.mem_map.mp he
      have hdistinct := h.distinct
      rw [List.map_append, List.nodup_append] at hdistinct
      exact hdistinct.2.2 y.member (List.mem_map_of_mem ((allowedOf_sublist _ xs).subset hy))
        x.member (List.mem_singleton_self x.member) heq
    obtain ⟨hrep', hlog'⟩ := hrep.step limit hw (h.time x hmem) le_rfl (h.pos x hmem) hnew
    have hentry : admitted Prod.snd windowMs limit ((xs ++ [x]).map Execution.entry) =
        admitEntry Prod.snd windowMs limit
          (admitted Prod.snd windowMs limit (xs.map Execution.entry)) x.entry := by
      unfold admitted
      rw [List.map_append, List.foldl_append]
      rfl
    rw [hentry, afterScripts_append, map_allowedOf_snoc, hlog]
    exact ⟨hrep'.mono (hτ x hmem), hlog'⟩

/-- The reply to the `i`-th execution of a sequence. -/
def replyAt (windowMs limit : ℤ) (xs : List Execution) (i : ℕ) : Option Reply :=
  xs[i]?.map fun x =>
    (slidingWindow windowMs limit (afterScripts windowMs limit .absent (xs.take i)) x).2

/-- The executions in front of the `i`-th one, seen from it. -/
theorem OneClock.take {xs : List Execution} {i : ℕ} (h : OneClock xs) (hi : xs[i]? = some x) :
    OneClock (xs.take i) ∧ (∀ y ∈ xs.take i, y.now ≤ x.now) ∧ x ∈ xs := by
  refine ⟨h.sublist (List.take_sublist i xs), fun y hy => ?_, List.mem_of_getElem? hi⟩
  have hsorted := h.sorted
  rw [eq_take_append_cons hi, List.pairwise_append] at hsorted
  exact hsorted.2.2 y hy x List.mem_cons_self

/-- The number of earlier allowed executions in the window of the `i`-th one is what it counts. -/
theorem OneClock.count_eq {xs : List Execution} {i : ℕ} (h : OneClock xs) (hw : 0 < windowMs)
    (hi : xs[i]? = some x) :
    (trimmed windowMs (afterScripts windowMs limit .absent (xs.take i)) x).zcard =
      countIn Execution.now windowMs x.now (allowedOf windowMs limit .absent (xs.take i)) := by
  obtain ⟨htake, hbefore, hmem⟩ := h.take hi
  obtain ⟨hrep, hlog⟩ := htake.represents limit hw hbefore
  rw [hrep.zcard (h.time x hmem) le_rfl, ← hlog, countIn_map]
  rfl

/-- The executions in front of a later one, with and without the `i`-th one. -/
theorem take_eraseIdx_split {xs : List Execution} {i k : ℕ} (hi : xs[i]? = some x) (hik : i ≤ k) :
    ∃ mid, xs.take (k + 1) = xs.take i ++ x :: mid ∧ (xs.eraseIdx i).take k = xs.take i ++ mid := by
  obtain ⟨hlt, -⟩ := List.getElem?_eq_some_iff.mp hi
  have hlen : (xs.take i).length = i := List.length_take_of_le hlt.le
  obtain ⟨d, rfl⟩ := Nat.exists_eq_add_of_le hik
  refine ⟨(xs.drop (i + 1)).take d, ?_, ?_⟩
  · conv_lhs => rw [eq_take_append_cons hi]
    rw [List.take_append, hlen, List.take_of_length_le (by omega)]
    congr 1
    have hnum : i + d + 1 - i = d + 1 := by omega
    rw [hnum, List.take_succ_cons]
  · rw [List.eraseIdx_eq_take_drop_succ, List.take_append, hlen,
      List.take_of_length_le (by omega), Nat.add_sub_cancel_left]

/-- Deleting a rejected execution does not change a later reply. -/
theorem OneClock.replyAt_eraseIdx {xs : List Execution} {i j : ℕ} (h : OneClock xs)
    (hw : 0 < windowMs) {r : Reply} (hr : replyAt windowMs limit xs i = some r)
    (hrej : r.allowed = false) (hij : i < j) :
    replyAt windowMs limit (xs.eraseIdx i) (j - 1) = replyAt windowMs limit xs j := by
  obtain ⟨k, rfl⟩ : ∃ k, j = k + 1 := ⟨j - 1, by omega⟩
  obtain ⟨x, hi, rfl⟩ := Option.map_eq_some_iff.mp hr
  have hik : i ≤ k := Nat.le_of_lt_succ hij
  have hlookup : (xs.eraseIdx i)[k]? = xs[k + 1]? := by
    rw [List.getElem?_eraseIdx, if_neg (Nat.not_lt.mpr hik)]
  unfold replyAt
  rw [Nat.add_sub_cancel, hlookup]
  cases hy : xs[k + 1]? with
  | none => rfl
  | some y =>
    obtain ⟨mid, hwith, hwithout⟩ := take_eraseIdx_split hi hik
    obtain ⟨htake, hbefore, hmem⟩ := h.take hy
    have hsub : ((xs.eraseIdx i).take k).Sublist (xs.take (k + 1)) := by
      rw [hwith, hwithout]
      exact (List.Sublist.refl (xs.take i)).append (List.sublist_cons_self x mid)
    -- both prefixes leave the same log
    have hfull : ¬ (countIn Prod.snd windowMs x.entry.2
        (admitted Prod.snd windowMs limit ((xs.take i).map Execution.entry)) : ℤ) < limit := by
      obtain ⟨htake', hbefore', hmem'⟩ := h.take hi
      have hcard := (htake'.represents limit hw hbefore').1.zcard (h.time x hmem') le_rfl
      rcases slidingWindow_cases windowMs limit
        (afterScripts windowMs limit .absent (xs.take i)) x with ⟨hle, -⟩ | ⟨-, -, hyes, -⟩
      · rw [hcard] at hle
        exact not_lt.mpr hle
      · rw [hrej] at hyes
        cases hyes
    have hsame : admitted Prod.snd windowMs limit ((xs.take (k + 1)).map Execution.entry) =
        admitted Prod.snd windowMs limit (((xs.eraseIdx i).take k).map Execution.entry) := by
      rw [hwith, hwithout, List.map_append, List.map_cons, List.map_append]
      exact admitted_of_rejected hfull
    have hrep := (htake.represents limit hw hbefore).1
    have hrep' := ((htake.sublist hsub).represents limit hw fun z hz =>
      hbefore z (hsub.subset hz)).1
    have htime := h.time y hmem
    rw [Option.map_some, Option.map_some, Option.some.injEq]
    refine reply_congr ?_
    rw [hrep'.entries htime le_rfl, hrep.entries htime le_rfl, hsame]

end Exact

/-- With one clock, in the order of the times and with distinct members, the script decides as the
exact log of all allowed executions: an execution is allowed exactly if fewer than `limit` earlier
ones were allowed in its window, the count returned is that number, with the execution itself if it
is allowed, and a rejected execution has no influence on later replies.  So no window of the length
`window_ms` has more than `limit` allowed executions, and none at all if the limit is negative. -/
theorem script_refines_window_log (windowMs limit : ℤ) (hw : 0 < windowMs) (xs : List Execution)
    (hxs : OneClock xs) :
    (∀ (i : ℕ) (x : Execution), xs[i]? = some x →
      let earlier := countIn Execution.now windowMs x.now
        (allowedOf windowMs limit .absent (xs.take i))
      ∃ r, replyAt windowMs limit xs i = some r ∧
        (r.allowed = true ↔ (earlier : ℤ) < limit) ∧
        r.count = bif r.allowed then earlier + 1 else earlier) ∧
    (∀ (i j : ℕ) (r : Reply), replyAt windowMs limit xs i = some r → r.allowed = false → i < j →
      replyAt windowMs limit (xs.eraseIdx i) (j - 1) = replyAt windowMs limit xs j) ∧
    ∀ t, (countIn Execution.now windowMs t (allowedOf windowMs limit .absent xs) : ℤ) ≤
      max limit 0 := by
  refine ⟨fun i x hi => ?_, fun i j r hr hrej hij => hxs.replyAt_eraseIdx hw hr hrej hij, ?_⟩
  · intro earlier
    have hcount : (trimmed windowMs (afterScripts windowMs limit .absent (xs.take i)) x).zcard =
        earlier := hxs.count_eq hw hi
    refine ⟨_, by rw [replyAt, hi, Option.map_some], ?_⟩
    rcases slidingWindow_cases windowMs limit (afterScripts windowMs limit .absent (xs.take i)) x
      with ⟨hfull, -, hno, hc⟩ | ⟨hroom, -, hyes, hc⟩
    · rw [hno, hc, hcount]
      rw [hcount] at hfull
      exact ⟨iff_of_false Bool.false_ne_true (not_lt.mpr hfull), rfl⟩
    · rw [hyes, hc, hcount]
      rw [hcount] at hroom
      exact ⟨iff_of_true rfl hroom, rfl⟩
  · refine bounded_of_remembered hw (fun i x hi => fresh_of_distinct hxs.distinct hi)
      fun i x hi e he hlow _ => ?_
    obtain ⟨htake, hbefore, hmem⟩ := hxs.take hi
    obtain ⟨hrep, hlog⟩ := htake.represents limit hw hbefore
    rw [hrep.entries (hxs.time x hmem) le_rfl, ← hlog]
    exact List.mem_filter.mpr ⟨he, decide_eq_true hlow⟩

/-- Three executions, of which the third comes when the window of the first has just passed. -/
def sampleExecutions : List Execution :=
  [⟨1000, 1000, "a"⟩, ⟨1000, 1000, "b"⟩, ⟨61000, 61000, "c"⟩]

theorem OneClock.sample : OneClock sampleExecutions :=
  ⟨by decide, by decide, by decide, by decide⟩

/-- With the limit 1 the second execution is rejected and the third is allowed. -/
theorem sample_script_refines_log :
    allowedOf 60000 1 .absent sampleExecutions = [⟨1000, 1000, "a"⟩, ⟨61000, 61000, "c"⟩] ∧
    replyAt 60000 1 (sampleExecutions.eraseIdx 1) 1 = replyAt 60000 1 sampleExecutions 2 ∧
    (countIn Execution.now (60000 : ℤ) 61000
      (allowedOf 60000 1 .absent sampleExecutions) : ℤ) ≤ 1 := by
  obtain ⟨-, hrej, hbound⟩ := script_refines_window_log 60000 1 (by decide) sampleExecutions .sample
  exact ⟨by decide, hrej 1 2 ⟨false, 1, 60000⟩ (by decide) rfl (by decide), hbound 61000⟩

end TransactionPlatform
