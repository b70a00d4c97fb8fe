import TransactionPlatform.RateLimit.RetryAfter

/-!
# What the headers promise

The calls of `rate_limited_client` of any clients, one after the other, each with its own fate: Redis
may answer, fail, or run the script and lose the reply.  A client is served as if it were alone, the
header `X-RateLimit-Remaining` is a lower bound for what it may still do, and what Redis keeps about
it is bounded and goes away.
-/

namespace TransactionPlatform

/-- A call of `rate_limited_client` and its fate. -/
structure LimitedCall where
  check : Check
  fault : Fault

namespace RateLimiter

variable (limiter : RateLimiter)

/-- The keys after a sequence of calls of any clients. -/
def serve (redis : Redis) (cs : List LimitedCall) : Redis :=
  cs.foldl (fun redis c => (rateLimitedClient limiter redis c.check c.fault).1) redis

/-- The answers to a sequence of calls of any clients. -/
def answers :
    Redis → List LimitedCall → List (LimitedCall × Except RateLimitError (List (String × String)))
  | _, [] => []
  | redis, c :: cs =>
    let r := rateLimitedClient limiter redis c.check c.fault
    (c, r.2) :: answers r.1 cs

end RateLimiter

/-- The key of a client. -/
def limitKey (clientId : String) : String := "ratelimit:" ++ clientId

section Key

variable {limiter : RateLimiter} {redis redis' : Redis} {c : LimitedCall} {clientId : String}

/-- The keys after a call are those after `check`. -/
theorem rateLimitedClient_fst (limiter : RateLimiter) (redis : Redis) (c : Check) (f : Fault) :
    (rateLimitedClient limiter redis c f).1 = (limiter.check redis c f).1 := by
  unfold rateLimitedClient
  dsimp only
  split
  · rfl
  · rfl

/-- What a call does to the key of its client: nothing, or one execution of the script. -/
theorem check_cases (limiter : RateLimiter) (redis : Redis) (c : Check) (f : Fault) :
    (limiter.check redis c f).1 = redis ∨
      (limiter.check redis c f).1 = Function.update redis c.key
        (slidingWindow RateLimiter.windowMs limiter.limit (redis c.key) c.execution).1 := by
  cases f with
  | ok => exact .inr rfl
  | rejected => exact .inl rfl
  | failed => exact .inl rfl
  | lost => exact .inr rfl

/-- A call leaves the keys of other clients alone. -/
theorem rateLimitedClient_key_of_ne (h : c.check.clientId ≠ clientId) :
    (rateLimitedClient limiter redis c.check c.fault).1 (limitKey clientId) =
      redis (limitKey clientId) := by
  rw [rateLimitedClient_fst]
  rcases check_cases limiter redis c.check c.fault with hsame | hscript
  · rw [hsame]
  · rw [hscript]
    exact Function.update_of_ne (key_ne_of_ne h) ..

/-- A call looks at the key of its client only. -/
theorem rateLimitedClient_congr (limiter : RateLimiter)
    (h : redis c.check.key = redis' c.check.key) :
    (rateLimitedClient limiter redis c.check c.fault).2 =
        (rateLimitedClient limiter redis' c.check c.fault).2 ∧
      (rateLimitedClient limiter redis c.check c.fault).1 c.check.key =
        (rateLimitedClient limiter redis' c.check c.fault).1 c.check.key := by
  have hans : (limiter.check redis c.check c.fault).2 =
      (limiter.check redis' c.check c.fault).2 := by
    cases hf : c.fault with
    | ok =>
      unfold RateLimiter.check
      dsimp only
      rw [h]
    | rejected => rfl
    | failed => rfl
    | lost => rfl
  constructor
  · unfold rateLimitedClient
    generalize limiter.check redis c.check c.fault = x at hans ⊢
    generalize limiter.check redis' c.check c.fault = y at hans ⊢
    obtain ⟨keys, allowed, answer⟩ := x
    obtain ⟨keys', answer'⟩ := y
    cases hans
    cases allowed with
    | true => rfl
    | false => rfl
  · rw [rateLimitedClient_fst, rateLimitedClient_fst]
    cases hf : c.fault with
    | ok =>
      unfold RateLimiter.check
      dsimp only
      rw [Function.update_self, Function.update_self, h]
    | rejected => exact h
    | failed => exact h
    | lost =>
      unfold RateLimiter.check
      dsimp only
      rw [Function.update_self, Function.update_self, h]

end Key

namespace LimitedCall

/-- The call is one of the client. -/
def of (clientId : String) (c : LimitedCall) : Bool := decide (c.check.clientId = clientId)

variable {clientId : String} {c : LimitedCall}

theorem filter_cons_self (h : c.check.clientId = clientId) (cs : List LimitedCall) :
    (c :: cs).filter (of clientId) = c :: cs.filter (of clientId) :=
  List.filter_cons_of_pos (p := of clientId) (decide_eq_true h)

theorem filter_cons_of_ne (h : c.check.clientId ≠ clientId) (cs : List LimitedCall) :
    (c :: cs).filter (of clientId) = cs.filter (of clientId) :=
  List.filter_cons_of_neg (p := of clientId) fun hdec => h (of_decide_eq_true hdec)

end LimitedCall

/-- Answers to calls of one client depend on its key only. -/
theorem answers_congr {limiter : RateLimiter} {clientId : String} {cs : List LimitedCall}
    (hcs : ∀ c ∈ cs, c.check.clientId = clientId) {redis redis' : Redis}
    (h : redis (limitKey clientId) = redis' (limitKey clientId)) :
    limiter.answers redis cs = limiter.answers redis' cs := by
  induction cs generalizing redis redis' with
  | nil => rfl
  | cons c cs ih =>
    have hkey : c.check.key = limitKey clientId := by
      rw [← hcs c List.mem_cons_self]
      rfl
    have hsame : redis c.check.key = redis' c.check.key := hkey ▸ h
    obtain ⟨hans, hnext⟩ := rateLimitedClient_congr limiter hsame
    rw [hkey] at hnext
    rw [RateLimiter.answers, RateLimiter.answers, hans,
      ih (fun d hd => hcs d (List.mem_cons_of_mem _ hd)) hnext]

section Answers

variable {clientId : String} {c : LimitedCall}

theorem filter_answers_self (h : c.check.clientId = clientId)
    (a : Except RateLimitError (List (String × String)))
    (l : List (LimitedCall × Except RateLimitError (List (String × String)))) :
    ((c, a) :: l).filter (fun x => x.1.of clientId) =
      (c, a) :: l.filter fun x => x.1.of clientId :=
  List.filter_cons_of_pos (p := fun x : LimitedCall × _ => x.1.of clientId) (decide_eq_true h)

theorem filter_answers_of_ne (h : c.check.clientId ≠ clientId)
    (a : Except RateLimitError (List (String × String)))
    (l : List (LimitedCall × Except RateLimitError (List (String × String)))) :
    ((c, a) :: l).filter (fun x => x.1.of clientId) = l.filter fun x => x.1.of clientId :=
  List.filter_cons_of_neg (p := fun x : LimitedCall × _ => x.1.of clientId)
    fun hdec => h (of_decide_eq_true hdec)

end Answers

/-- Whatever other clients do in between and whatever fails, a client gets the answers it would get
if it were alone. -/
theorem client_answers_isolated (limiter : RateLimiter) (redis : Redis) (clientId : String)
    (cs : List LimitedCall) :
    (limiter.answers redis cs).filter (fun x => x.1.of clientId) =
      limiter.answers redis (cs.filter (LimitedCall.of clientId)) := by
  induction cs generalizing redis with
  | nil => rfl
  | cons c cs ih =>
    rw [RateLimiter.answers]
    by_cases hc : c.check.clientId = clientId
    · rw [LimitedCall.filter_cons_self hc, filter_answers_self hc, RateLimiter.answers, ih]
    · rw [LimitedCall.filter_cons_of_ne hc, filter_answers_of_ne hc, ih]
      refine answers_congr (fun d hd => of_decide_eq_true (List.mem_filter.mp hd).2) ?_
      exact rateLimitedClient_key_of_ne hc

/-! ### `X-RateLimit-Remaining` -/

section Remaining

variable {windowMs limit : ℤ} {z : SortedSet} {x : Execution}

/-- An execution adds at most one entry. -/
theorem length_slidingWindow_le (windowMs limit : ℤ) (z : SortedSet) (x : Execution) :
    (slidingWindow windowMs limit z x).1.entries.length ≤
      (trimmed windowMs z x).entries.length + 1 := by
  rcases slidingWindow_cases windowMs limit z x with ⟨-, hset, -, -⟩ | ⟨-, hset, -, -⟩
  · rw [hset]
    exact Nat.le_succ _
  · rw [hset]
    unfold SortedSet.pexpire
    split
    · exact Nat.zero_le _
    · show (((trimmed windowMs z x).entries.filter fun e => decide (e.1 ≠ x.member)) ++
        [(x.member, x.now)]).length ≤ _
      rw [List.length_append, List.length_singleton]
      exact Nat.succ_le_succ (List.length_filter_le _ _)

variable {limiter : RateLimiter} {redis : Redis} {clientId : String}

/-- Each call of a client adds at most one entry to its set. -/
theorem length_serve_le (limiter : RateLimiter) (clientId : String) (redis : Redis)
    (cs : List LimitedCall) :
    (limiter.serve redis cs (limitKey clientId)).entries.length ≤
      (redis (limitKey clientId)).entries.length + (cs.filter (LimitedCall.of clientId)).length := by
  induction cs generalizing redis with
  | nil => exact Nat.le_refl _
  | cons c cs ih =>
    have hrest := ih (rateLimitedClient limiter redis c.check c.fault).1
    have hserve : limiter.serve redis (c :: cs) =
        limiter.serve (rateLimitedClient limiter redis c.check c.fault).1 cs := rfl
    rw [hserve]
    by_cases hc : c.check.clientId = clientId
    · have hkey : c.check.key = limitKey clientId := by
        rw [← hc]
        rfl
      have hone : ((rateLimitedClient limiter redis c.check c.fault).1
          (limitKey clientId)).entries.length ≤ (redis (limitKey clientId)).entries.length + 1 := by
        rw [rateLimitedClient_fst]
        rcases check_cases limiter redis c.check c.fault with hsame | hscript
        · rw [hsame]
          exact Nat.le_succ _
        · rw [hscript, hkey, Function.update_self]
          exact (length_slidingWindow_le ..).trans (Nat.succ_le_succ (length_trimmed_le ..))
      rw [LimitedCall.filter_cons_self hc, List.length_cons]
      omega
    · rw [rateLimitedClient_key_of_ne hc] at hrest
      rw [LimitedCall.filter_cons_of_ne hc]
      exact hrest

/-- What an answer with `X-RateLimit-Remaining` says about the check. -/
theorem check_of_remaining {c : Check} {f : Fault} {headers : List (String × String)} {m : ℕ}
    (hans : (rateLimitedClient limiter redis c f).2 = .ok headers)
    (hm : headers.lookup "X-RateLimit-Remaining" = some (toString m)) :
    (limiter.check redis c f).2.1 = true ∧
      (m : ℤ) = max 0 (limiter.limit - (limiter.check redis c f).2.2.1) := by
  unfold rateLimitedClient at hans
  cases hallowed : (limiter.check redis c f).2.1 with
  | false => simp [hallowed] at hans
  | true =>
    simp only [hallowed, if_true] at hans
    cases hans
    refine ⟨rfl, ?_⟩
    obtain ⟨n, hn⟩ : ∃ n : ℕ, max 0 (limiter.limit - (limiter.check redis c f).2.2.1) = n :=
      Int.eq_ofNat_of_zero_le (le_max_left ..)
    have htext : toString (max 0 (limiter.limit - (limiter.check redis c f).2.2.1)) = toString m :=
      Option.some.inj hm
    rw [hn] at htext ⊢
    exact congrArg Nat.cast (toString_inj htext).symm

theorem exists_headers_of_allowed {c : Check} {f : Fault}
    (h : (limiter.check redis c f).2.1 = true) :
    ∃ headers, (rateLimitedClient limiter redis c f).2 = .ok headers := by
  unfold rateLimitedClient
  simp only [h, if_true]
  exact ⟨_, rfl⟩

/-- A set with room lets the call through, whatever becomes of it. -/
theorem allowed_of_room (d : LimitedCall)
    (hroom : ((redis d.check.key).entries.length : ℤ) < limiter.limit) :
    (limiter.check redis d.check d.fault).2.1 = true := by
  cases hf : d.fault with
  | ok =>
    have htrim := length_trimmed_le RateLimiter.windowMs (redis d.check.key) d.check.execution
    rcases slidingWindow_cases RateLimiter.windowMs limiter.limit (redis d.check.key)
      d.check.execution with ⟨hfull, -, -, -⟩ | ⟨-, -, hallowed, -⟩
    · unfold SortedSet.zcard at hfull
      omega
    · exact hallowed
  | rejected => rfl
  | failed => rfl
  | lost => rfl

end Remaining

/-- A client that is told `X-RateLimit-Remaining: m` by a call that has reached Redis is let through
by its next `m` calls, whenever they come, whatever clocks the replicas have, whatever other clients
do in between and whatever fails. -/
theorem remaining_calls_allowed (limiter : RateLimiter) (redis : Redis) (c : Check) (m : ℕ)
    (headers : List (String × String))
    (hans : (rateLimitedClient limiter redis c .ok).2 = .ok headers)
    (hm : headers.lookup "X-RateLimit-Remaining" = some (toString m)) (cs : List LimitedCall)
    (d : LimitedCall) (hclient : d.check.clientId = c.clientId)
    (hcs : (cs.filter (LimitedCall.of c.clientId)).length < m) :
    ∃ headers', (rateLimitedClient limiter
      (limiter.serve (rateLimitedClient limiter redis c .ok).1 cs) d.check d.fault).2 =
        .ok headers' := by
  obtain ⟨hallowed, hcount⟩ := check_of_remaining hans hm
  have hkey : d.check.key = limitKey c.clientId := by
    rw [← hclient]
    rfl
  have hfirst : ((rateLimitedClient limiter redis c .ok).1
      (limitKey c.clientId)).entries.length ≤ (limiter.check redis c .ok).2.2.1 := by
    have hupdate : (rateLimitedClient limiter redis c .ok).1 (limitKey c.clientId) =
        (slidingWindow RateLimiter.windowMs limiter.limit (redis c.key) c.execution).1 := by
      rw [rateLimitedClient_fst]
      exact Function.update_self ..
    rw [hupdate]
    refine (length_slidingWindow_le ..).trans ?_
    rcases slidingWindow_cases RateLimiter.windowMs limiter.limit (redis c.key) c.execution with
      ⟨-, -, hno, -⟩ | ⟨-, -, -, hn⟩
    · exact absurd (hno.symm.trans hallowed) (by decide)
    · exact Nat.le_of_eq hn.symm
  have hlength :=
    length_serve_le limiter c.clientId (rateLimitedClient limiter redis c .ok).1 cs
  have hroom : ((limiter.serve (rateLimitedClient limiter redis c .ok).1 cs
      d.check.key).entries.length : ℤ) < limiter.limit := by
    rw [hkey]
    omega
  exact exists_headers_of_allowed (allowed_of_room d hroom)

/-- A client with a limit of three calls has two calls left, although another client calls and Redis
fails in between. -/
theorem sample_remaining_calls_allowed :
    ∃ headers', (rateLimitedClient ⟨3⟩ (RateLimiter.serve ⟨3⟩
        (rateLimitedClient ⟨3⟩ (fun _ => .absent) ⟨"c1", 1000, 1000, 1⟩ .ok).1
        [⟨⟨"c2", 1001, 1001, 2⟩, .ok⟩, ⟨⟨"c1", 1002, 1002, 3⟩, .lost⟩]) ⟨"c1", 900, 900, 4⟩ .ok).2 =
      .ok headers' :=
  remaining_calls_allowed ⟨3⟩ (fun _ => .absent) ⟨"c1", 1000, 1000, 1⟩ 2 _ rfl rfl
    [⟨⟨"c2", 1001, 1001, 2⟩, .ok⟩, ⟨⟨"c1", 1002, 1002, 3⟩, .lost⟩] ⟨⟨"c1", 900, 900, 4⟩, .ok⟩ rfl
    (by decide)

/-! ### What Redis keeps -/

/-- The key is gone, or it expires within a window of the time `τ`. -/
def Expiring (windowMs τ : ℤ) (z : SortedSet) : Prop :=
  z = .absent ∨ ∃ deadline, z.expireAt = some deadline ∧ deadline ≤ τ + windowMs

section Expiring

variable {windowMs limit τ : ℤ} {z : SortedSet} {x : Execution}

theorem Expiring.trimmed (h : Expiring windowMs τ z) (x : Execution) :
    Expiring windowMs τ (trimmed windowMs z x) := by
  have hfetch : Expiring windowMs τ (z.fetch x.time) := by
    cases hexp : z.expired x.time with
    | true =>
      rw [SortedSet.fetch_of_expired hexp]
      exact .inl rfl
    | false =>
      rw [SortedSet.fetch_of_not_expired hexp]
      exact h
  unfold TransactionPlatform.trimmed SortedSet.zremrangebyscore
  dsimp only
  split
  · exact .inl rfl
  · rcases hfetch with habsent | hdeadline
    · next hne =>
      rw [habsent] at hne
      exact absurd rfl hne
    · exact .inr hdeadline

theorem Expiring.step (h : Expiring windowMs τ z) (limit : ℤ) (hx : x.time ≤ τ) :
    Expiring windowMs τ (slidingWindow windowMs limit z x).1 := by
  rcases slidingWindow_cases windowMs limit z x with ⟨-, hset, -, -⟩ | ⟨-, hset, -, -⟩
  · rw [hset]
    exact h.trimmed x
  · rw [hset]
    unfold SortedSet.pexpire
    split
    · exact .inl rfl
    · exact .inr ⟨x.time + windowMs, rfl, by omega⟩

theorem Expiring.fetch (h : Expiring windowMs τ z) {time : ℤ} (htime : τ + windowMs ≤ time) :
    z.fetch time = .absent := by
  rcases h with rfl | ⟨deadline, hdeadline, hle⟩
  · rfl
  · refine SortedSet.fetch_of_expired (SortedSet.expired_iff.mpr ⟨deadline, hdeadline, ?_⟩)
    exact hle.trans htime

end Expiring

end TransactionPlatform
