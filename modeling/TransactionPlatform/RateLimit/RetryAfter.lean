import TransactionPlatform.RateLimit.Limits

/-!
# The advertised wait

A rejected execution returns the time after which the oldest entry leaves the window.  Nothing is
added while executions are rejected, so the set a rejected execution leaves, `Full`, stays as it is
until that entry is trimmed or the key expires: `allowed_iff` says when the next execution is
allowed, and `retry_after_exact` that the returned time is the exact minimum when there is one
clock.

`rate_limited_client` of `app/core/deps.py` puts this time into a header in whole seconds, rounded
down.  `retry_after_suffices_iff` says for which states the rounded time is enough.
-/

namespace TransactionPlatform

variable {windowMs limit : ℤ}

/-! ### Full sets -/

/-- The set holds `limit` entries, which are in the window that ends at `now`. -/
structure Full (windowMs limit : ℤ) (z : SortedSet) (now : ℤ) : Prop where
  card : (z.entries.length : ℤ) = limit
  pos : ∀ e ∈ z.entries, 0 < e.2
  low : ∀ e ∈ z.entries, now - windowMs < e.2
  high : ∀ e ∈ z.entries, e.2 ≤ now

/-- Trimming only removes entries. -/
theorem length_trimmed_le (windowMs : ℤ) (z : SortedSet) (x : Execution) :
    (trimmed windowMs z x).entries.length ≤ z.entries.length := by
  unfold trimmed
  rw [SortedSet.entries_zremrangebyscore]
  refine (List.length_filter_le _ _).trans ?_
  cases hexp : z.expired x.time with
  | true =>
    rw [SortedSet.fetch_of_expired hexp]
    exact Nat.zero_le _
  | false => rw [SortedSet.fetch_of_not_expired hexp]

/-- The set never has more than `limit` entries. -/
theorem length_afterScripts_le (windowMs : ℤ) (hlimit : 0 ≤ limit) (xs : List Execution) :
    ((afterScripts windowMs limit .absent xs).entries.length : ℤ) ≤ limit := by
  induction xs using List.reverseRecOn with
  | nil => exact hlimit
  | append_singleton xs x ih =>
    rw [afterScripts_append]
    change ((slidingWindow windowMs limit (afterScripts windowMs limit .absent xs)
      x).1.entries.length : ℤ) ≤ limit
    have htrim := length_trimmed_le windowMs (afterScripts windowMs limit .absent xs) x
    rcases slidingWindow_cases windowMs limit (afterScripts windowMs limit .absent xs) x with
      ⟨-, hset, -, -⟩ | ⟨hroom, hset, -, -⟩
    · rw [hset]
      omega
    · rw [hset]
      unfold SortedSet.pexpire
      split
      · exact hlimit
      · unfold SortedSet.zcard at hroom
        have hfilter := List.length_filter_le (fun e => decide (e.1 ≠ x.member))
          (trimmed windowMs (afterScripts windowMs limit .absent xs) x).entries
        change ((((trimmed windowMs (afterScripts windowMs limit .absent xs) x).entries.filter
          fun e => decide (e.1 ≠ x.member)) ++ [(x.member, x.now)]).length : ℤ) ≤ limit
        rw [List.length_append, List.length_singleton]
        omega

/-- A rejected execution leaves a full set. -/
theorem full_of_rejected {xs : List Execution} {x : Execution} (hlimit : 0 ≤ limit)
    (hpos : ∀ y ∈ xs, 0 < y.now) (hbefore : ∀ y ∈ xs, y.now ≤ x.now)
    (hrej : (slidingWindow windowMs limit (afterScripts windowMs limit .absent xs) x).2.allowed =
      false) :
    Full windowMs limit (trimmed windowMs (afterScripts windowMs limit .absent xs) x) x.now := by
  -- the entries are those of earlier executions
  have hentry : ∀ e ∈ (trimmed windowMs (afterScripts windowMs limit .absent xs) x).entries,
      ∃ y ∈ xs, e = y.entry := by
    intro e he
    have hmem := entries_subset xs (SortedSet.mem_of_mem_fetch (mem_trimmed.mp he).1)
    obtain ⟨y, hy, heq⟩ := List.mem_map.mp hmem
    exact ⟨y, hy, heq.symm⟩
  have hcard := length_afterScripts_le windowMs hlimit xs
  have htrim := length_trimmed_le windowMs (afterScripts windowMs limit .absent xs) x
  refine ⟨?_, fun e he => ?_, fun e he => ?_, fun e he => ?_⟩
  · rcases slidingWindow_cases windowMs limit (afterScripts windowMs limit .absent xs) x with
      ⟨hfull, -⟩ | ⟨-, -, hyes, -⟩
    · unfold SortedSet.zcard at hfull
      omega
    · rw [hrej] at hyes
      cases hyes
  · obtain ⟨y, hy, rfl⟩ := hentry e he
    exact hpos y hy
  · have hkept := (mem_trimmed.mp he).2
    obtain ⟨y, hy, rfl⟩ := hentry e he
    have hpos' : 0 < y.entry.2 := hpos y hy
    omega
  · obtain ⟨y, hy, rfl⟩ := hentry e he
    exact hbefore y hy

section FullSet

variable {z : SortedSet} {now : ℤ} {y : Execution}

/-- A full set has an oldest entry. -/
theorem Full.exists_oldest (h : Full windowMs limit z now) (hlimit : 1 ≤ limit) :
    ∃ score, z.oldest = some score ∧ now - windowMs < score ∧ score ≤ now ∧
      (∃ e ∈ z.entries, e.2 = score) ∧ ∀ e ∈ z.entries, score ≤ e.2 := by
  cases hold : z.oldest with
  | none =>
    have hnil := List.map_eq_nil_iff.mp (List.min?_eq_none_iff.mp hold)
    have hcard := h.card
    rw [hnil, List.length_nil] at hcard
    omega
  | some score =>
    obtain ⟨hmem, hle⟩ := List.min?_eq_some_iff.mp hold
    obtain ⟨e, he, rfl⟩ := List.mem_map.mp hmem
    exact ⟨e.2, rfl, h.low e he, h.high e he, ⟨e, he, rfl⟩,
      fun e' he' => hle e'.2 (List.mem_map_of_mem he')⟩

/-- An execution on a full set is allowed exactly if the key has expired or the oldest entry is
trimmed. -/
theorem Full.allowed_iff (h : Full windowMs limit z now) (hlimit : 1 ≤ limit) {score : ℤ}
    (hscore : z.oldest = some score) :
    (slidingWindow windowMs limit z y).2.allowed = true ↔
      z.expired y.time = true ∨ score ≤ y.now - windowMs := by
  have hallowed : (slidingWindow windowMs limit z y).2.allowed = true ↔
      ((trimmed windowMs z y).zcard : ℤ) < limit := by
    rcases slidingWindow_cases windowMs limit z y with ⟨hfull, -, hno, -⟩ | ⟨hroom, -, hyes, -⟩
    · rw [hno]
      exact iff_of_false Bool.false_ne_true (not_lt.mpr hfull)
    · exact iff_of_true hyes hroom
  rw [hallowed]
  unfold SortedSet.zcard trimmed
  rw [SortedSet.entries_zremrangebyscore]
  cases hexp : z.expired y.time with
  | true =>
    rw [SortedSet.fetch_of_expired hexp]
    exact iff_of_true (lt_of_lt_of_le zero_lt_one hlimit) (.inl rfl)
  | false =>
    rw [SortedSet.fetch_of_not_expired hexp, or_iff_right Bool.false_ne_true, ← h.card,
      Int.ofNat_lt, List.length_filter_lt_length_iff_exists]
    obtain ⟨score', hscore', -, -, ⟨e, he, rfl⟩, hle⟩ := h.exists_oldest hlimit
    rw [hscore] at hscore'
    cases hscore'
    constructor
    · rintro ⟨e', he', hout⟩
      rw [Bool.not_eq_true, Bool.not_eq_false', decide_eq_true_iff] at hout
      exact (hle e' he').trans hout.2
    · intro hold
      refine ⟨e, he, ?_⟩
      rw [Bool.not_eq_true, Bool.not_eq_false', decide_eq_true_iff]
      exact ⟨(h.pos e he).le, hold⟩

/-- A rejected execution leaves a full set as it is. -/
theorem Full.of_rejected (h : Full windowMs limit z now) (hlimit : 1 ≤ limit)
    (hrej : (slidingWindow windowMs limit z y).2.allowed = false) :
    (slidingWindow windowMs limit z y).1 = z := by
  obtain ⟨score, hscore, -, -, -, hle⟩ := h.exists_oldest hlimit
  have hnot := (h.allowed_iff (y := y) hlimit hscore).not.mp (by rw [hrej]; nofun)
  obtain ⟨hexp, hwin⟩ := not_or.mp hnot
  rcases slidingWindow_cases windowMs limit z y with ⟨-, hset, -, -⟩ | ⟨-, -, hyes, -⟩
  · have hall : z.entries.filter (fun e => !decide (0 ≤ e.2 ∧ e.2 ≤ y.now - windowMs)) =
        z.entries := by
      refine List.filter_eq_self.mpr fun e he => ?_
      rw [Bool.not_eq_true', decide_eq_false_iff_not]
      have hold := hle e he
      omega
    have hne : z.entries ≠ [] := by
      intro hnil
      have hcard := h.card
      rw [hnil, List.length_nil] at hcard
      omega
    rw [hset]
    unfold trimmed
    rw [SortedSet.fetch_of_not_expired (Bool.eq_false_iff.mpr hexp)]
    unfold SortedSet.zremrangebyscore
    dsimp only
    rw [hall, if_neg hne]
  · rw [hrej] at hyes
    cases hyes

/-- Any number of rejected executions leave a full set as it is. -/
theorem Full.afterScripts_eq (h : Full windowMs limit z now) (hlimit : 1 ≤ limit)
    {ys : List Execution} (hys : allowedOf windowMs limit z ys = []) :
    afterScripts windowMs limit z ys = z := by
  induction ys with
  | nil => rfl
  | cons y ys ih =>
    rw [allowedOf] at hys
    cases hallowed : (slidingWindow windowMs limit z y).2.allowed with
    | true =>
      rw [hallowed] at hys
      cases hys
    | false =>
      rw [hallowed, cond_false, h.of_rejected hlimit hallowed] at hys
      change afterScripts windowMs limit (slidingWindow windowMs limit z y).1 ys = z
      rw [h.of_rejected hlimit hallowed]
      exact ih hys

end FullSet

/-! ### The time that the script returns -/

/-- A rejected execution leaves the set it has counted. -/
theorem slidingWindow_of_rejected {z : SortedSet} {x : Execution}
    (hrej : (slidingWindow windowMs limit z x).2.allowed = false) :
    (slidingWindow windowMs limit z x).1 = trimmed windowMs z x := by
  rcases slidingWindow_cases windowMs limit z x with ⟨-, hset, -, -⟩ | ⟨-, -, hyes, -⟩
  · exact hset
  · rw [hrej] at hyes
    cases hyes

/-- The time that a rejected execution returns: until the oldest entry leaves the window. -/
theorem retryAfterMs_of_rejected {z : SortedSet} {x : Execution} {score : ℤ}
    (hrej : (slidingWindow windowMs limit z x).2.allowed = false)
    (hscore : (trimmed windowMs z x).oldest = some score) :
    (slidingWindow windowMs limit z x).2.retryAfterMs = windowMs - (x.now - score) := by
  unfold slidingWindow at hrej ⊢
  dsimp only at hrej ⊢
  split
  · rw [hscore]
  · next hroom =>
    rw [if_neg hroom] at hrej
    cases hrej

/-- With one clock a key expires a window after its last entry, or later. -/
theorem OneClock.deadline {xs : List Execution} (h : OneClock xs) (hw : 0 < windowMs) {deadline : ℤ}
    (hexp : (afterScripts windowMs limit .absent xs).expireAt = some deadline) :
    ∀ e ∈ (afterScripts windowMs limit .absent xs).entries, e.2 + windowMs ≤ deadline := by
  induction xs using List.reverseRecOn with
  | nil => nofun
  | append_singleton xs x ih =>
    intro e he
    rw [afterScripts_append] at hexp he
    change (slidingWindow windowMs limit (afterScripts windowMs limit .absent xs) x).1.expireAt =
      some deadline at hexp
    change e ∈ (slidingWindow windowMs limit (afterScripts windowMs limit .absent xs) x).1.entries
      at he
    rcases slidingWindow_cases windowMs limit (afterScripts windowMs limit .absent xs) x with
      ⟨-, hset, -, -⟩ | ⟨-, hset, -, -⟩
    · rw [hset] at hexp he
      exact ih (h.sublist (List.sublist_append_left xs [x])) (expireAt_trimmed hexp) e
        (SortedSet.mem_of_mem_fetch (mem_trimmed.mp he).1)
    · -- every entry is at most as late as this execution
      have hle : e.2 ≤ x.now := by
        rcases mem_slidingWindow he with hold | rfl
        · have hmem := entries_subset xs (SortedSet.mem_of_mem_fetch (mem_trimmed.mp hold).1)
          obtain ⟨y, hy, rfl⟩ := List.mem_map.mp hmem
          exact (List.pairwise_append.mp h.sorted).2.2 y hy x (List.mem_singleton_self x)
        · exact le_rfl
      have htime := h.time x (List.mem_append_right xs (List.mem_singleton_self x))
      rw [hset] at hexp
      unfold SortedSet.pexpire at hexp
      rw [if_neg (not_le.mpr hw)] at hexp
      cases hexp
      omega

/-- With one clock, the time `r` that a rejected execution returns is the least wait: it is positive
and at most a window, and as long as no execution is allowed, one at a distance `d` is allowed
exactly if `r ≤ d`. -/
theorem retry_after_exact (windowMs limit : ℤ) (hw : 0 < windowMs) (hlimit : 1 ≤ limit)
    (xs : List Execution) (x : Execution) (hclock : OneClock (xs ++ [x]))
    (hrej : (slidingWindow windowMs limit (afterScripts windowMs limit .absent xs) x).2.allowed =
      false) :
    let r := (slidingWindow windowMs limit (afterScripts windowMs limit .absent xs)
      x).2.retryAfterMs
    0 < r ∧ r ≤ windowMs ∧
      ∀ (d : ℤ) (ys : List Execution) (y : Execution), y.time = y.now → y.now = x.now + d →
        allowedOf windowMs limit (afterScripts windowMs limit .absent (xs ++ [x])) ys = [] →
        ((slidingWindow windowMs limit (afterScripts windowMs limit .absent (xs ++ x :: ys))
          y).2.allowed = true ↔ r ≤ d) := by
  have hbefore : ∀ y ∈ xs, y.now ≤ x.now := fun y hy =>
    (List.pairwise_append.mp hclock.sorted).2.2 y hy x (List.mem_singleton_self x)
  have hfull := full_of_rejected (zero_le_one.trans hlimit)
    (fun y hy => hclock.pos y (List.mem_append_left [x] hy)) hbefore hrej
  have hstate : afterScripts windowMs limit .absent (xs ++ [x]) =
      trimmed windowMs (afterScripts windowMs limit .absent xs) x := by
    rw [afterScripts_append]
    exact slidingWindow_of_rejected hrej
  obtain ⟨score, hscore, hlow, hhigh, ⟨e, he, rfl⟩, -⟩ := hfull.exists_oldest hlimit
  rw [retryAfterMs_of_rejected hrej hscore]
  refine ⟨by omega, by omega, fun d ys y htime hnow hnone => ?_⟩
  have hsame : afterScripts windowMs limit .absent (xs ++ x :: ys) =
      trimmed windowMs (afterScripts windowMs limit .absent xs) x := by
    rw [hstate] at hnone
    rw [← List.singleton_append, ← List.append_assoc, afterScripts_append, hstate]
    exact hfull.afterScripts_eq hlimit hnone
  rw [hsame, hfull.allowed_iff hlimit hscore]
  constructor
  · rintro (hexp | hold)
    · -- an expired key has only entries that are a window old
      obtain ⟨deadline, hdeadline, hpassed⟩ := SortedSet.expired_iff.mp hexp
      rw [← hstate] at hdeadline he
      have hlate := hclock.deadline hw hdeadline e he
      omega
    · omega
  · intro hwait
    exact .inr (by omega)

theorem sample_retry_after :
    (slidingWindow 60000 1 (afterScripts 60000 1 .absent [⟨1000, 1000, "a"⟩, ⟨1500, 1500, "b"⟩])
      ⟨61000, 61000, "c"⟩).2.allowed = true := by
  have hexact := retry_after_exact 60000 1 (by decide) le_rfl [⟨1000, 1000, "a"⟩] ⟨1500, 1500, "b"⟩
    ⟨by decide, by decide, by decide, by decide⟩ (by decide)
  exact (hexact.2.2 59500 [] ⟨61000, 61000, "c"⟩ rfl rfl rfl).mpr (by decide)

/-! ### `rate_limited_client` -/

/-- The `HTTPException` that `rate_limited_client` raises. -/
structure RateLimitError where
  statusCode : ℕ
  detail : String
  headers : List (String × String)
  deriving DecidableEq

/-- `rate_limited_client` for the client of a call: the keys of Redis after it, and the exception it
raises or the headers it sets on the response. -/
def rateLimitedClient (limiter : RateLimiter) (redis : Redis) (c : Check) (f : Fault) :
    Redis × Except RateLimitError (List (String × String)) :=
  let (redis, allowed, count, retryAfterMs) := limiter.check redis c f
  if allowed then
    (redis, .ok
      [("X-RateLimit-Limit", toString limiter.limit),
        ("X-RateLimit-Remaining", toString (max 0 (limiter.limit - count)))])
  else
    (redis, .error
      { statusCode := 429
        detail := "Rate limit exceeded: 100 requests per minute per client"
        headers :=
          [("Retry-After", toString (max 1 (retryAfterMs / 1000))),
            ("X-RateLimit-Limit", toString limiter.limit),
            ("X-RateLimit-Remaining", "0")] })

/-- Different numbers are written differently. -/
theorem toString_inj {m n : ℕ} (h : toString m = toString n) : m = n := by
  rw [Nat.toString_eq_ofList_toDigits, Nat.toString_eq_ofList_toDigits] at h
  have hdigits := congrArg (fun cs => Nat.ofDigitChars 10 cs 0) (String.ofList_injective h)
  rwa [Nat.ofDigitChars_ten_toDigits, Nat.ofDigitChars_ten_toDigits] at hdigits

/-- What an answer with `Retry-After` says about the check. -/
theorem check_of_rateLimitedClient {limiter : RateLimiter} {redis : Redis} {c : Check} {f : Fault}
    {err : RateLimitError} {s : ℕ} (herr : (rateLimitedClient limiter redis c f).2 = .error err)
    (hs : err.headers.lookup "Retry-After" = some (toString s)) :
    (limiter.check redis c f).2.1 = false ∧ s = max 1 ((limiter.check redis c f).2.2.2 / 1000) := by
  unfold rateLimitedClient at herr
  cases hallowed : (limiter.check redis c f).2.1 with
  | true =>
    simp [hallowed] at herr
  | false =>
    simp only [hallowed, Bool.false_eq_true, if_false] at herr
    cases herr
    refine ⟨rfl, ?_⟩
    obtain ⟨n, hn⟩ : ∃ n : ℕ, max 1 ((limiter.check redis c f).2.2.2 / 1000) = n :=
      Int.eq_ofNat_of_zero_le (zero_le_one.trans (le_max_left ..))
    rw [hn]
    have htext : toString (max 1 ((limiter.check redis c f).2.2.2 / 1000)) = toString s :=
      Option.some.inj hs
    rw [hn] at htext
    exact congrArg Nat.cast (toString_inj htext).symm

/-- A client that is answered 429 and then waits for `Retry-After` is let through exactly if its key
has expired by then, or the oldest request in its window was at least 59 seconds or a whole number
of seconds old. -/
theorem retry_after_suffices_iff (limiter : RateLimiter) (hlimit : 1 ≤ limiter.limit)
    (cs : List Check) (c : Check) (hpos : ∀ d ∈ callsOf c.clientId cs, 0 < d.nowMs)
    (hsorted : (callsOf c.clientId (cs ++ [c])).Pairwise fun d d' => d.nowMs ≤ d'.nowMs)
    (err : RateLimitError) (s : ℕ)
    (h429 : (rateLimitedClient limiter (limiter.afterChecks (fun _ => .absent) cs) c .ok).2 =
      .error err)
    (hs : err.headers.lookup "Retry-After" = some (toString s))
    (others : List Check) (hothers : ∀ d ∈ others, d.clientId ≠ c.clientId) (c' : Check)
    (hclient : c'.clientId = c.clientId) (hnow : c'.nowMs = c.nowMs + 1000 * s) :
    let window := trimmed RateLimiter.windowMs
      (limiter.afterChecks (fun _ => .absent) cs c.key) c.execution
    (limiter.check (limiter.afterChecks (fun _ => .absent) (cs ++ c :: others)) c' .ok).2.1 = true ↔
      window.expired c'.time = true ∨
        ∃ oldest, window.oldest = some oldest ∧
          (59000 ≤ c.nowMs - oldest ∨ (c.nowMs - oldest) % 1000 = 0) := by
  intro window
  obtain ⟨hrej, hwait⟩ := check_of_rateLimitedClient h429 hs
  -- the scripts that have run on the key of the client
  have hkey : limiter.afterChecks (fun _ => .absent) cs c.key =
      afterScripts RateLimiter.windowMs limiter.limit .absent
        ((callsOf c.clientId cs).map Check.execution) :=
    afterChecks_key (fun _ => .absent) cs
  rw [callsOf_append, callsOf_cons_self rfl] at hsorted
  have hfull : Full RateLimiter.windowMs limiter.limit window c.nowMs := by
    unfold window
    rw [hkey]
    refine full_of_rejected (zero_le_one.trans hlimit) (fun x hx => ?_) (fun x hx => ?_) ?_
    · obtain ⟨d, hd, rfl⟩ := List.mem_map.mp hx
      exact hpos d hd
    · obtain ⟨d, hd, rfl⟩ := List.mem_map.mp hx
      exact (List.pairwise_append.mp hsorted).2.2 d hd c (List.mem_singleton_self c)
    · rw [← hkey]
      exact hrej
  have hstate : limiter.afterChecks (fun _ => .absent) (cs ++ c :: others) c'.key = window := by
    have hnone : callsOf c.clientId others = [] :=
      List.filter_eq_nil_iff.mpr fun d hd => by
        rw [decide_eq_true_eq]
        exact hothers d hd
    have hthis : limiter.afterChecks (fun _ => .absent) (cs ++ c :: others) c'.key =
        afterScripts RateLimiter.windowMs limiter.limit .absent
          ((callsOf c'.clientId (cs ++ c :: others)).map Check.execution) :=
      afterChecks_key (fun _ => .absent) _
    rw [hthis, hclient, callsOf_append, callsOf_cons_self rfl, hnone, List.map_append,
      afterScripts_append, ← hkey]
    exact slidingWindow_of_rejected hrej
  obtain ⟨score, hscore, hlow, hhigh, -, -⟩ := hfull.exists_oldest hlimit
  have hretry : (limiter.check (limiter.afterChecks (fun _ => .absent) cs) c .ok).2.2.2 =
      60000 - (c.nowMs - score) :=
    retryAfterMs_of_rejected hrej hscore
  have hallowed : (limiter.check (limiter.afterChecks (fun _ => .absent) (cs ++ c :: others)) c'
      .ok).2.1 = true ↔ window.expired c'.time = true ∨ score ≤ c'.nowMs - 60000 := by
    rw [← hstate] at hfull hscore ⊢
    exact hfull.allowed_iff hlimit hscore
  rw [hallowed, hscore, hnow, hwait, hretry]
  have hlow' : c.nowMs - 60000 < score := hlow
  refine or_congr_right ⟨fun hold => ⟨score, rfl, by omega⟩, ?_⟩
  rintro ⟨_, heq, hage⟩
  cases heq
  omega

/-- The keys after a request at 1000 ms, which takes up the limit 1, and one that is rejected. -/
def sampleKeys (rejectedAt : ℤ) : Redis :=
  RateLimiter.afterChecks ⟨1⟩ (fun _ => .absent)
    [⟨"c1", 1000, 1000, 5⟩, ⟨"c1", rejectedAt, rejectedAt, 6⟩]

theorem sample_retry_after_suffices :
    (RateLimiter.check ⟨1⟩ (sampleKeys 2000) ⟨"c1", 61000, 61000, 7⟩ .ok).2.1 = true := by
  refine (retry_after_suffices_iff ⟨1⟩ le_rfl [⟨"c1", 1000, 1000, 5⟩] ⟨"c1", 2000, 2000, 6⟩
    (by decide) (by decide)
    ⟨429, "Rate limit exceeded: 100 requests per minute per client",
      [("Retry-After", "59"), ("X-RateLimit-Limit", "1"), ("X-RateLimit-Remaining", "0")]⟩
    59 (by decide) (by decide) [] nofun ⟨"c1", 61000, 61000, 7⟩ rfl rfl).mpr ?_
  exact .inr ⟨1000, by decide, .inr rfl⟩

/-- With the limit 1, a request half a second after the first one is told to come back after 59
seconds, when the first one is still in the window. -/
theorem retry_after_too_short :
    let rejected : Check := ⟨"c1", 1500, 1500, 6⟩
    (rateLimitedClient ⟨1⟩ (RateLimiter.afterChecks ⟨1⟩ (fun _ => .absent)
        [⟨"c1", 1000, 1000, 5⟩]) rejected .ok).2 =
      .error ⟨429, "Rate limit exceeded: 100 requests per minute per client",
        [("Retry-After", "59"), ("X-RateLimit-Limit", "1"), ("X-RateLimit-Remaining", "0")]⟩ ∧
      (RateLimiter.check ⟨1⟩ (sampleKeys 1500) ⟨"c1", 60500, 60500, 7⟩ .ok).2.1 = false := by
  decide

end TransactionPlatform
