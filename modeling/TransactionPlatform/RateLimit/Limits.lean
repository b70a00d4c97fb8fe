import TransactionPlatform.RateLimit.WindowLog

/-!
# When the limit holds

The bound of the limiter rests on two things that the code does not enforce: that the set still has
every entry of the window when an execution counts it, and that no member is added twice.

* Replicas have clocks of their own, and an execution with a later time removes entries that are
  still in the window of one with an earlier time.  `replica_limit_holds`: the limit holds as long
  as no execution comes late, after an entry of its window has been removed.
* A member is made of the time and of the address of an object that is already dead, so two calls in
  one millisecond may carry the same one.  `client_limit_holds`: the limit holds as long as no call
  carries a member that is still in the set, or finds the key expired by the clock of Redis while
  the set has an entry of its window.
-/

namespace TransactionPlatform

open SlidingWindow

variable {windowMs limit : ℤ}

/-! ### Entries stay until they are removed -/

/-- The execution `x`, in the state `z`, removes the entry of `y`: its time is a window later, or it
finds the key expired. -/
def Removes (windowMs : ℤ) (z : SortedSet) (x y : Execution) : Prop :=
  y.now + windowMs ≤ x.now ∨ z.expired x.time = true

/-- An entry that is not removed is counted. -/
theorem mem_trimmed_of_not_removes {z : SortedSet} {x y : Execution} (h : y.entry ∈ z.entries)
    (hkeep : ¬ Removes windowMs z x y) : y.entry ∈ (trimmed windowMs z x).entries := by
  obtain ⟨hwin, hexp⟩ := not_or.mp hkeep
  rw [mem_trimmed, SortedSet.fetch_of_not_expired (Bool.eq_false_iff.mpr hexp)]
  refine ⟨h, fun hold => hwin ?_⟩
  have hscore : y.now ≤ x.now - windowMs := hold.2
  omega

/-- What is left stays in the set, if the execution brings a new member. -/
theorem mem_of_mem_trimmed {z : SortedSet} {x : Execution} {e : String × ℤ} (hw : 0 < windowMs)
    (h : e ∈ (trimmed windowMs z x).entries) (hfresh : Fresh windowMs limit z x) :
    e ∈ (slidingWindow windowMs limit z x).1.entries := by
  rcases slidingWindow_cases windowMs limit z x with ⟨-, hset, -, -⟩ | ⟨-, -, hyes, -⟩
  · rw [hset]
    exact h
  · rw [entries_of_allowed hw hyes (hfresh.of_allowed hyes)]
    exact List.mem_append_left _ h

/-- An allowed execution puts its entry into the set. -/
theorem entry_mem_of_allowed {z : SortedSet} {x : Execution} (hw : 0 < windowMs)
    (hfresh : Fresh windowMs limit z x)
    (hallowed : (slidingWindow windowMs limit z x).2.allowed = true) :
    x.entry ∈ (slidingWindow windowMs limit z x).1.entries := by
  rw [entries_of_allowed hw hallowed (hfresh.of_allowed hallowed)]
  exact List.mem_append_right _ (List.mem_singleton_self _)

/-- The state in front of the `i`-th execution. -/
def before (windowMs limit : ℤ) (xs : List Execution) (i : ℕ) : SortedSet :=
  afterScripts windowMs limit .absent (xs.take i)

theorem before_succ {xs : List Execution} {i : ℕ} {x : Execution} (h : xs[i]? = some x) :
    before windowMs limit xs (i + 1) =
      (slidingWindow windowMs limit (before windowMs limit xs i) x).1 := by
  unfold before
  rw [List.take_add_one, h, Option.toList_some, afterScripts_append]
  rfl

/-- The allowed executions in front of the `i`-th one, by position. -/
theorem mem_allowedOf_take {xs : List Execution} {i : ℕ} {y : Execution}
    (h : y ∈ allowedOf windowMs limit .absent (xs.take i)) :
    ∃ k < i, xs[k]? = some y ∧
      (slidingWindow windowMs limit (before windowMs limit xs k) y).2.allowed = true := by
  induction i with
  | zero => cases h
  | succ i ih =>
    rw [List.take_add_one, allowedOf_append] at h
    rcases List.mem_append.mp h with h | h
    · obtain ⟨k, hk, hrow, hallowed⟩ := ih h
      exact ⟨k, Nat.lt_succ_of_lt hk, hrow, hallowed⟩
    · cases hrow : xs[i]? with
      | none =>
        rw [hrow] at h
        cases h
      | some x =>
        rw [hrow, Option.toList_some, allowedOf] at h
        cases hallowed :
          (slidingWindow windowMs limit (before windowMs limit xs i) x).2.allowed with
        | true =>
          unfold before at hallowed
          rw [hallowed, cond_true] at h
          cases List.mem_singleton.mp h
          exact ⟨i, Nat.lt_succ_self i, hrow, hallowed⟩
        | false =>
          unfold before at hallowed
          rw [hallowed, cond_false] at h
          cases h

/-- The entry of an allowed execution is in the set as long as no execution behind it removes it. -/
theorem entry_stored {xs : List Execution} (hw : 0 < windowMs)
    (hfresh : ∀ (i : ℕ) (x : Execution), xs[i]? = some x →
      Fresh windowMs limit (before windowMs limit xs i) x) {k i : ℕ} {y : Execution}
    (hk : xs[k]? = some y)
    (hallowed : (slidingWindow windowMs limit (before windowMs limit xs k) y).2.allowed = true)
    (hki : k < i) (hi : i ≤ xs.length)
    (hkeep : ∀ (j : ℕ) (x : Execution), k < j → j < i → xs[j]? = some x →
      ¬ Removes windowMs (before windowMs limit xs j) x y) :
    y.entry ∈ (before windowMs limit xs i).entries := by
  induction i with
  | zero => omega
  | succ i ih =>
    rcases Nat.lt_succ_iff_lt_or_eq.mp hki with hlt | rfl
    · have hx : xs[i]? = some xs[i] := List.getElem?_eq_getElem hi
      have hstored := ih hlt (Nat.le_of_succ_le hi) fun j x hj hji =>
        hkeep j x hj (Nat.lt_succ_of_lt hji)
      rw [before_succ hx]
      exact mem_of_mem_trimmed hw (mem_trimmed_of_not_removes hstored
        (hkeep i _ hlt (Nat.lt_succ_self i) hx)) (hfresh i _ hx)
    · rw [before_succ hk]
      exact entry_mem_of_allowed hw (hfresh _ _ hk) hallowed

/-- An execution finds what it needs if no entry that matters to it has been removed. -/
theorem remembered_of_not_removed {xs : List Execution} (hw : 0 < windowMs)
    (hfresh : ∀ (i : ℕ) (x : Execution), xs[i]? = some x →
      Fresh windowMs limit (before windowMs limit xs i) x) {i : ℕ} {x : Execution}
    (hi : xs[i]? = some x)
    (hkeep : ∀ (k : ℕ) (y : Execution), k < i → xs[k]? = some y →
      (slidingWindow windowMs limit (before windowMs limit xs k) y).2.allowed = true →
      x.now - windowMs < y.now → y.now < x.now + windowMs →
      ∀ (j : ℕ) (x' : Execution), k < j → j ≤ i → xs[j]? = some x' →
        ¬ Removes windowMs (before windowMs limit xs j) x' y) :
    Remembered windowMs (before windowMs limit xs i)
      ((allowedOf windowMs limit .absent (xs.take i)).map Execution.entry) x := by
  intro e he hlow hhigh
  obtain ⟨y, hy, rfl⟩ := List.mem_map.mp he
  obtain ⟨k, hki, hk, hallowed⟩ := mem_allowedOf_take hy
  obtain ⟨hlen, -⟩ := List.getElem?_eq_some_iff.mp hi
  have hall := hkeep k y hki hk hallowed hlow hhigh
  have hstored : y.entry ∈ (before windowMs limit xs i).entries :=
    entry_stored hw hfresh hk hallowed hki hlen.le fun j x' hj hji hx' => hall j x' hj hji.le hx'
  exact mem_trimmed_of_not_removes hstored (hall i x hki le_rfl hi)

/-! ### A clock per caller -/

/-- No execution comes late: an entry that was added is not removed in front of an execution whose
time is less than a window away from it. -/
def NoLateCall (windowMs limit : ℤ) (xs : List Execution) : Prop :=
  ∀ (k i : ℕ) (y x : Execution), k < i → xs[k]? = some y → xs[i]? = some x →
    y.entry ∈ (before windowMs limit xs (k + 1)).entries →
    x.now - windowMs < y.now → y.now < x.now + windowMs →
    ∀ (j : ℕ) (x' : Execution), k < j → j ≤ i → xs[j]? = some x' →
      ¬ Removes windowMs (before windowMs limit xs j) x' y

/-- With a clock per caller and distinct members, as long as no execution comes late, every window
has at most `limit` allowed executions. -/
theorem replica_limit_holds (windowMs limit : ℤ) (hw : 0 < windowMs) (hlimit : 1 ≤ limit)
    (xs : List Execution) (hdistinct : (xs.map Execution.member).Nodup)
    (hlate : NoLateCall windowMs limit xs) (t : ℤ) :
    (countIn Execution.now windowMs t (allowedOf windowMs limit .absent xs) : ℤ) ≤ limit := by
  have hfresh : ∀ (i : ℕ) (x : Execution), xs[i]? = some x →
      Fresh windowMs limit (before windowMs limit xs i) x :=
    fun i x hi => fresh_of_distinct hdistinct hi
  have hbound := bounded_of_remembered hw hfresh (fun i x hi =>
    remembered_of_not_removed hw hfresh hi fun k y hki hk hallowed => by
      have hadded : y.entry ∈ (before windowMs limit xs (k + 1)).entries := by
        rw [before_succ hk]
        exact entry_mem_of_allowed hw (hfresh k y hk) hallowed
      exact hlate k i y x hki hk hi hadded) t
  rwa [max_eq_left (by omega)] at hbound

/-- Two replicas, the second a little behind the first. -/
def sampleReplicas : List Execution := [⟨5000, 1000, "a"⟩, ⟨5001, 999, "b"⟩]

theorem sample_replica_limit :
    (countIn Execution.now (60000 : ℤ) 1000
      (allowedOf 60000 1 .absent sampleReplicas) : ℤ) ≤ 1 := by
  refine replica_limit_holds 60000 1 (by decide) le_rfl sampleReplicas (by decide) ?_ 1000
  intro k i y x hki hk hi _ _ _ j x' hkj hji hx'
  obtain ⟨hlen, -⟩ := List.getElem?_eq_some_iff.mp hi
  have htwo : i < 2 := hlen
  obtain rfl : k = 0 := by omega
  obtain rfl : j = 1 := by omega
  cases hk
  cases hx'
  rintro (hwin | hexp)
  · exact absurd hwin (by decide)
  · exact absurd hexp (by decide)

/-- The third execution, by a replica a minute ahead, removes the entries of the first two, and the
fourth one is allowed: with the limit 2, three executions are allowed within two milliseconds. -/
theorem late_call_exceeds_limit :
    let xs : List Execution :=
      [⟨5000, 1000, "a"⟩, ⟨5001, 1000, "b"⟩, ⟨5002, 61000, "c"⟩, ⟨5003, 1001, "d"⟩]
    (xs.map Execution.member).Nodup ∧
      countIn Execution.now (60000 : ℤ) 1001 (allowedOf 60000 2 .absent xs) = 3 := by
  decide

/-! ### The members of `check` -/

/-- Trimming leaves the deadline, if it leaves the key. -/
theorem expireAt_trimmed {z : SortedSet} {x : Execution} {deadline : ℤ}
    (h : (trimmed windowMs z x).expireAt = some deadline) : z.expireAt = some deadline := by
  unfold trimmed SortedSet.zremrangebyscore at h
  dsimp only at h
  split at h
  · cases h
  · cases hexp : z.expired x.time with
    | true =>
      rw [SortedSet.fetch_of_expired hexp] at h
      cases h
    | false =>
      rw [SortedSet.fetch_of_not_expired hexp] at h
      exact h

/-- The key expires a window after an execution that is not before any entry of the set. -/
theorem expireAt_before {xs : List Execution} (hw : 0 < windowMs)
    (hsorted : xs.Pairwise fun x y => x.now ≤ y.now)
    (hfresh : ∀ (i : ℕ) (x : Execution), xs[i]? = some x →
      Fresh windowMs limit (before windowMs limit xs i) x) {n : ℕ} (hn : n ≤ xs.length)
    {deadline : ℤ} (hexp : (before windowMs limit xs n).expireAt = some deadline) :
    ∃ (l : ℕ) (v : Execution), l < n ∧ xs[l]? = some v ∧ deadline = v.time + windowMs ∧
      ∀ e ∈ (before windowMs limit xs n).entries, e.2 ≤ v.now := by
  induction n generalizing deadline with
  | zero => cases hexp
  | succ n ih =>
    have hx : xs[n]? = some xs[n] := List.getElem?_eq_getElem hn
    have hold : ∀ e ∈ (trimmed windowMs (before windowMs limit xs n) xs[n]).entries,
        e ∈ (before windowMs limit xs n).entries :=
      fun e he => SortedSet.mem_of_mem_fetch (mem_trimmed.mp he).1
    rw [before_succ hx] at hexp ⊢
    rcases slidingWindow_cases windowMs limit (before windowMs limit xs n) xs[n] with
      ⟨-, hset, -, -⟩ | ⟨-, -, hyes, -⟩
    · -- a rejected execution leaves the deadline, if it leaves the key
      rw [hset] at hexp ⊢
      obtain ⟨l, v, hl, hv, hd, hle⟩ := ih (Nat.le_of_succ_le hn) (expireAt_trimmed hexp)
      exact ⟨l, v, Nat.lt_succ_of_lt hl, hv, hd, fun e he => hle e (hold e he)⟩
    · rw [entries_of_allowed hw hyes ((hfresh n _ hx).of_allowed hyes)] at hexp ⊢
      refine ⟨n, xs[n], Nat.lt_succ_self n, hx, (Option.some.inj hexp).symm, fun e he => ?_⟩
      rcases List.mem_append.mp he with he | he
      · obtain ⟨y, hy, rfl⟩ := List.mem_map.mp (entries_subset _ (hold e he))
        obtain ⟨k, hk, rfl⟩ := List.mem_take_iff_getElem.mp hy
        have hkn : k < n := by omega
        exact List.pairwise_iff_getElem.mp hsorted k n (by omega) hn hkn
      · rw [List.mem_singleton.mp he]
        exact le_rfl

/-- The execution does not find the key expired by the clock of Redis while the set has an entry of
its window. -/
def KeyKept (windowMs : ℤ) (z : SortedSet) (x : Execution) : Prop :=
  z.expired x.time = true → ∀ e ∈ z.entries, e.2 ≤ x.now - windowMs

/-- With one clock, and also if between any two executions the clock of Redis advances at most as
much as the times they carry, no key expires too early. -/
theorem keyKept_of_clock {xs : List Execution} (hw : 0 < windowMs)
    (hsorted : xs.Pairwise fun x y => x.now ≤ y.now)
    (hclock : xs.Pairwise fun x y => y.time - x.time ≤ y.now - x.now)
    (hfresh : ∀ (i : ℕ) (x : Execution), xs[i]? = some x →
      Fresh windowMs limit (before windowMs limit xs i) x) {i : ℕ} {x : Execution}
    (hi : xs[i]? = some x) : KeyKept windowMs (before windowMs limit xs i) x := by
  intro hexp e he
  obtain ⟨hlen, rfl⟩ := List.getElem?_eq_some_iff.mp hi
  obtain ⟨deadline, hdeadline, hpassed⟩ := SortedSet.expired_iff.mp hexp
  obtain ⟨l, v, hli, hv, rfl, hle⟩ := expireAt_before hw hsorted hfresh hlen.le hdeadline
  obtain ⟨hlen', rfl⟩ := List.getElem?_eq_some_iff.mp hv
  have hadvance := List.pairwise_iff_getElem.mp hclock l i hlen' hlen hli
  have hentry := hle e he
  omega

/-- With times in order, keys that are kept and new members only, the limit holds. -/
theorem bounded_of_sorted {xs : List Execution} (hw : 0 < windowMs) (hlimit : 1 ≤ limit)
    (hsorted : xs.Pairwise fun x y => x.now ≤ y.now)
    (hkept : ∀ (i : ℕ) (x : Execution), xs[i]? = some x →
      KeyKept windowMs (before windowMs limit xs i) x)
    (hfresh : ∀ (i : ℕ) (x : Execution), xs[i]? = some x →
      Fresh windowMs limit (before windowMs limit xs i) x) (t : ℤ) :
    (countIn Execution.now windowMs t (allowedOf windowMs limit .absent xs) : ℤ) ≤ limit := by
  have hbound := bounded_of_remembered hw hfresh (fun i x hi =>
    remembered_of_not_removed hw hfresh hi ?_) t
  · rwa [max_eq_left (by omega)] at hbound
  intro k y hki hk hallowed hlow _ j
  -- by induction on the position: the entry is there as long as nobody has removed it
  induction j using Nat.strong_induction_on with
  | _ j ih =>
    intro x' hkj hji hx'
    obtain ⟨hlen, rfl⟩ := List.getElem?_eq_some_iff.mp hx'
    have hlater : xs[j].now ≤ x.now := by
      rcases Nat.lt_or_eq_of_le hji with hlt | rfl
      · obtain ⟨hlen', rfl⟩ := List.getElem?_eq_some_iff.mp hi
        exact List.pairwise_iff_getElem.mp hsorted j i hlen hlen' hlt
      · rw [hi] at hx'
        cases hx'
        exact le_rfl
    have hstored := entry_stored hw hfresh hk hallowed hkj hlen.le fun j' x'' hkj' hj' hx'' =>
      ih j' hj' x'' hkj' (hj'.le.trans hji) hx''
    rintro (hwin | hexp)
    · omega
    · have hscore : y.now ≤ xs[j].now - windowMs := hkept j _ hx' hexp _ hstored
      omega

section Clients

variable {limiter : RateLimiter} {clientId : String}

/-- The calls of one client. -/
def callsOf (clientId : String) (cs : List Check) : List Check :=
  cs.filter fun c => decide (c.clientId = clientId)

theorem callsOf_cons_self {c : Check} (h : c.clientId = clientId) (cs : List Check) :
    callsOf clientId (c :: cs) = c :: callsOf clientId cs :=
  List.filter_cons_of_pos (decide_eq_true h)

theorem callsOf_cons_of_ne {c : Check} (h : c.clientId ≠ clientId) (cs : List Check) :
    callsOf clientId (c :: cs) = callsOf clientId cs :=
  List.filter_cons_of_neg (fun hdec => h (of_decide_eq_true hdec))

theorem callsOf_append (cs ds : List Check) :
    callsOf clientId (cs ++ ds) = callsOf clientId cs ++ callsOf clientId ds :=
  List.filter_append ..

/-- Clients have keys of their own. -/
theorem key_ne_of_ne {c : Check} (h : c.clientId ≠ clientId) :
    "ratelimit:" ++ clientId ≠ c.key := by
  intro heq
  unfold Check.key at heq
  exact h ((String.append_right_inj _).mp heq).symm

/-- The key of a client is changed by its own calls only. -/
theorem check_key (redis : Redis) (c : Check) :
    (limiter.check redis c .ok).1 ("ratelimit:" ++ clientId) =
      if c.clientId = clientId then
        (slidingWindow RateLimiter.windowMs limiter.limit (redis ("ratelimit:" ++ clientId))
          c.execution).1
      else redis ("ratelimit:" ++ clientId) := by
  unfold RateLimiter.check
  dsimp only
  split
  · next h =>
    subst h
    exact Function.update_self ..
  · next h => exact Function.update_of_ne (key_ne_of_ne h) ..

/-- What a sequence of calls does to the key of a client. -/
theorem afterChecks_key (redis : Redis) (cs : List Check) :
    limiter.afterChecks redis cs ("ratelimit:" ++ clientId) =
      afterScripts RateLimiter.windowMs limiter.limit (redis ("ratelimit:" ++ clientId))
        ((callsOf clientId cs).map Check.execution) := by
  induction cs generalizing redis with
  | nil => rfl
  | cons c cs ih =>
    have hstep : limiter.afterChecks redis (c :: cs) =
        limiter.afterChecks (limiter.check redis c .ok).1 cs := rfl
    rw [hstep, ih, check_key]
    by_cases h : c.clientId = clientId
    · rw [if_pos h, callsOf_cons_self h]
      rfl
    · rw [if_neg h, callsOf_cons_of_ne h]

/-- The allowed calls of a client are the allowed executions on its key. -/
theorem map_allowedCalls (redis : Redis) (cs : List Check) :
    (limiter.allowedCalls clientId redis cs).map Check.execution =
      allowedOf RateLimiter.windowMs limiter.limit (redis ("ratelimit:" ++ clientId))
        ((callsOf clientId cs).map Check.execution) := by
  induction cs generalizing redis with
  | nil => rfl
  | cons c cs ih =>
    have hrest := ih (limiter.check redis c .ok).1
    rw [check_key] at hrest
    unfold RateLimiter.allowedCalls
    dsimp only
    by_cases h : c.clientId = clientId
    · rw [if_pos h] at hrest
      rw [callsOf_cons_self h, List.map_cons, allowedOf, decide_eq_true h, Bool.true_and, ← hrest]
      subst h
      have hreply : (limiter.check redis c .ok).2.1 = (slidingWindow RateLimiter.windowMs
        limiter.limit (redis ("ratelimit:" ++ c.clientId)) c.execution).2.allowed := rfl
      rw [← hreply]
      cases (limiter.check redis c .ok).2.1 with
      | true => rfl
      | false => rfl
    · rw [if_neg h] at hrest
      rw [callsOf_cons_of_ne h, decide_eq_false h, Bool.false_and, cond_false, hrest]

/-- The calls in front of one of a client's calls, among the calls of all clients. -/
theorem callsOf_take {cs : List Check} {i : ℕ} {x : Execution}
    (h : ((callsOf clientId cs).map Check.execution)[i]? = some x) :
    ∃ (n : ℕ) (c : Check), cs[n]? = some c ∧ c.clientId = clientId ∧ c.execution = x ∧
      (callsOf clientId (cs.take n)).map Check.execution =
        ((callsOf clientId cs).map Check.execution).take i := by
  obtain ⟨l₁, l₂, hcalls, hl₁, hl₂⟩ := List.map_eq_append_iff.mp (eq_take_append_cons h)
  obtain ⟨c, l₃, rfl, hc, -⟩ := List.map_eq_cons_iff.mp hl₂
  obtain ⟨a, b, rfl, ha, hb⟩ := List.filter_eq_append_iff.mp hcalls
  obtain ⟨b₁, b₂, rfl, hnone, hown, -⟩ := List.filter_eq_cons_iff.mp hb
  have hb₁ : callsOf clientId b₁ = [] := List.filter_eq_nil_iff.mpr hnone
  refine ⟨(a ++ b₁).length, c, ?_, of_decide_eq_true hown, hc, ?_⟩
  · rw [← List.append_assoc, List.getElem?_append_right le_rfl, Nat.sub_self]
    rfl
  · have htake : (a ++ (b₁ ++ c :: b₂)).take (a ++ b₁).length = a ++ b₁ := by
      rw [← List.append_assoc, List.take_left]
    rw [htake, callsOf_append, hb₁, List.append_nil, ← hl₁, ← ha]
    rfl

end Clients

/-- For any clients and any sequence of `check` calls in which the calls of a client carry times in
order, as long as none of these carries a member that is still in the set, or finds the key expired
too early, every window has at most `limit` allowed calls of the client. -/
theorem client_limit_holds (limiter : RateLimiter) (hlimit : 1 ≤ limiter.limit) (clientId : String)
    (cs : List Check) (hsorted : (callsOf clientId cs).Pairwise fun c d => c.nowMs ≤ d.nowMs)
    (hkept : ∀ (n : ℕ) (c : Check), cs[n]? = some c → c.clientId = clientId →
      KeyKept RateLimiter.windowMs
        (limiter.afterChecks (fun _ => .absent) (cs.take n) c.key) c.execution)
    (hfresh : ∀ (n : ℕ) (c : Check), cs[n]? = some c → c.clientId = clientId →
      Fresh RateLimiter.windowMs limiter.limit
        (limiter.afterChecks (fun _ => .absent) (cs.take n) c.key) c.execution) (t : ℤ) :
    (countIn Check.nowMs RateLimiter.windowMs t
      (limiter.allowedCalls clientId (fun _ => .absent) cs) : ℤ) ≤ limiter.limit := by
  have hw : 0 < RateLimiter.windowMs := by decide
  have hcount : countIn Check.nowMs RateLimiter.windowMs t
      (limiter.allowedCalls clientId (fun _ => .absent) cs) =
      countIn Execution.now RateLimiter.windowMs t (allowedOf RateLimiter.windowMs limiter.limit
        .absent ((callsOf clientId cs).map Check.execution)) := by
    rw [← map_allowedCalls (fun _ => .absent), countIn_map]
    rfl
  rw [hcount]
  have hstate : ∀ (i : ℕ) (x : Execution),
      ((callsOf clientId cs).map Check.execution)[i]? = some x →
      ∃ (n : ℕ) (c : Check), cs[n]? = some c ∧ c.clientId = clientId ∧ c.execution = x ∧
        limiter.afterChecks (fun _ => .absent) (cs.take n) c.key =
          before RateLimiter.windowMs limiter.limit
            ((callsOf clientId cs).map Check.execution) i := by
    intro i x hi
    obtain ⟨n, c, hn, rfl, rfl, htake⟩ := callsOf_take hi
    refine ⟨n, c, hn, rfl, rfl, ?_⟩
    unfold before
    rw [← htake]
    exact afterChecks_key (fun _ => .absent) (cs.take n)
  refine bounded_of_sorted hw hlimit (List.pairwise_map.mpr hsorted) (fun i x hi => ?_)
    (fun i x hi => ?_) t
  · obtain ⟨n, c, hn, hc, rfl, hbefore⟩ := hstate i x hi
    rw [← hbefore]
    exact hkept n c hn hc
  · obtain ⟨n, c, hn, hc, rfl, hbefore⟩ := hstate i x hi
    rw [← hbefore]
    exact hfresh n c hn hc

/-- Two calls of one client in one millisecond, with different objects, and one of another
client. -/
def sampleChecks : List Check :=
  [⟨"c1", 1000, 1000, 5⟩, ⟨"c2", 1000, 1000, 5⟩, ⟨"c1", 1000, 1000, 6⟩]

theorem sample_client_limit :
    (countIn Check.nowMs RateLimiter.windowMs 1000
      (RateLimiter.allowedCalls ⟨1⟩ "c1" (fun _ => .absent) sampleChecks) : ℤ) ≤ 1 := by
  have hfirst : ∀ (n : ℕ) (c : Check), sampleChecks[n]? = some c → c.clientId = "c1" →
      n = 0 ∧ c = ⟨"c1", 1000, 1000, 5⟩ ∨ n = 2 ∧ c = ⟨"c1", 1000, 1000, 6⟩ := by
    intro n c hn hc
    obtain ⟨hlen, -⟩ := List.getElem?_eq_some_iff.mp hn
    have hthree : n < 3 := hlen
    obtain rfl | rfl | rfl : n = 0 ∨ n = 1 ∨ n = 2 := by omega
    · exact .inl ⟨rfl, (Option.some.inj hn).symm⟩
    · cases hn
      exact absurd hc (by decide)
    · exact .inr ⟨rfl, (Option.some.inj hn).symm⟩
  refine client_limit_holds ⟨1⟩ le_rfl "c1" sampleChecks ?_ (fun n c hn hc => ?_)
    (fun n c hn hc => ?_) 1000
  · have hcalls : callsOf "c1" sampleChecks =
        [⟨"c1", 1000, 1000, 5⟩, ⟨"c1", 1000, 1000, 6⟩] := by decide
    rw [hcalls, List.pairwise_pair]
  · rcases hfirst n c hn hc with ⟨rfl, rfl⟩ | ⟨rfl, rfl⟩
    · exact fun hexp => absurd hexp (by decide)
    · exact fun hexp => absurd hexp (by decide)
  · rcases hfirst n c hn hc with ⟨rfl, rfl⟩ | ⟨rfl, rfl⟩
    · exact .inl (by decide)
    · exact .inr (by decide)

/-- Three calls of one client in one millisecond whose objects have the same address are all allowed
with the limit 2. -/
theorem repeated_member_exceeds_limit :
    countIn Check.nowMs RateLimiter.windowMs 1000
      (RateLimiter.allowedCalls ⟨2⟩ "c1" (fun _ => .absent)
        (List.replicate 3 ⟨"c1", 1000, 1000, 5⟩)) = 3 := by
  decide

end TransactionPlatform
