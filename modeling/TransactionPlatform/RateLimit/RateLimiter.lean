import Mathlib.Logic.Function.Basic
import TransactionPlatform.Database

/-!
# The rate limiter

`app/redis_utils/rate_limiter.py`: the Lua script over one sorted set of Redis, and
`RateLimiter.check`, which calls it with a key per client.

Redis runs a script as one step, at one reading `time` of its own clock, while `now` is what the
caller read from its clock.  Numbers in the script are doubles; times in milliseconds, window and
limit stay far below `2 ^ 53`, where doubles are integers, so they are integers here.
-/

namespace TransactionPlatform

/-- A key of Redis that holds a sorted set: its members with their scores, and the time at which the
key expires.  Without members there is no key. -/
structure SortedSet where
  entries : List (String × ℤ)
  expireAt : Option ℤ
  deriving DecidableEq

namespace SortedSet

/-- There is no such key. -/
def absent : SortedSet := ⟨[], none⟩

/-- What a script finds under the key: an expired key is gone. -/
def fetch (z : SortedSet) (time : ℤ) : SortedSet :=
  bif z.expireAt.any fun deadline => decide (deadline ≤ time) then absent else z

/-- `ZREMRANGEBYSCORE key min max`; Redis removes a key with its last member. -/
def zremrangebyscore (z : SortedSet) (min max : ℤ) : SortedSet :=
  let kept := z.entries.filter fun e => !decide (min ≤ e.2 ∧ e.2 ≤ max)
  if kept = [] then absent else { z with entries := kept }

/-- `ZCARD key`. -/
def zcard (z : SortedSet) : ℕ := z.entries.length

/-- The score of the first element of `ZRANGE key 0 0 WITHSCORES`, if there is one. -/
def oldest (z : SortedSet) : Option ℤ := (z.entries.map Prod.snd).min?

/-- `ZADD key score member`; a member that is in the set gets the new score. -/
def zadd (z : SortedSet) (score : ℤ) (member : String) : SortedSet :=
  { z with entries := z.entries.filter (fun e => decide (e.1 ≠ member)) ++ [(member, score)] }

/-- `PEXPIRE key ms`; a time to live that is not positive deletes the key. -/
def pexpire (z : SortedSet) (ms time : ℤ) : SortedSet :=
  if ms ≤ 0 then absent else { z with expireAt := some (time + ms) }

end SortedSet

/-- What the script returns. -/
structure Reply where
  allowed : Bool
  count : ℕ
  retryAfterMs : ℤ
  deriving DecidableEq

/-- One execution of the script: the clock of Redis, the time the caller has read, and the
member. -/
structure Execution where
  time : ℤ
  now : ℤ
  member : String
  deriving DecidableEq

section Script

variable (windowMs limit : ℤ)

/-- The set the script counts: entries up to `now - window_ms` are removed. -/
def trimmed (z : SortedSet) (x : Execution) : SortedSet :=
  (z.fetch x.time).zremrangebyscore 0 (x.now - windowMs)

/-- `_SLIDING_WINDOW_LUA`. -/
def slidingWindow (z : SortedSet) (x : Execution) : SortedSet × Reply :=
  let z := trimmed windowMs z x
  let current := z.zcard
  if limit ≤ current then
    let retryAfterMs := match z.oldest with
      | none => windowMs
      | some score => windowMs - (x.now - score)
    (z, ⟨false, current, retryAfterMs⟩)
  else ((z.zadd x.now x.member).pexpire windowMs x.time, ⟨true, current + 1, 0⟩)

/-- The set after a sequence of executions. -/
def afterScripts (z : SortedSet) (xs : List Execution) : SortedSet :=
  xs.foldl (fun z x => (slidingWindow windowMs limit z x).1) z

/-- The executions of a sequence that were allowed. -/
def allowedOf (z : SortedSet) : List Execution → List Execution
  | [] => []
  | x :: xs =>
    let r := slidingWindow windowMs limit z x
    bif r.2.allowed then x :: allowedOf r.1 xs else allowedOf r.1 xs

end Script

/-! ### `RateLimiter.check` -/

/-- The keys of Redis that the limiter uses. -/
abbrev Redis := String → SortedSet

/-- `RateLimiter`. -/
structure RateLimiter where
  limit : ℤ

/-- `self.window_ms`. -/
def RateLimiter.windowMs : ℤ := 60000

/-- One call of `check`: the client, the clock of Redis, `int(time.time() * 1000)` and
`id(object())`. -/
structure Check where
  clientId : String
  time : ℤ
  nowMs : ℤ
  objectId : ℕ
  deriving DecidableEq

namespace Check

/-- The key of the client. -/
def key (c : Check) : String := "ratelimit:" ++ c.clientId

/-- The member of the call. -/
def member (c : Check) : String := toString c.nowMs ++ ":" ++ toString c.objectId

/-- The execution of the script that the call asks for. -/
def execution (c : Check) : Execution := ⟨c.time, c.nowMs, c.member⟩

end Check

namespace RateLimiter

/-- `check`, with the keys of Redis before and after it.  An exception is answered with
`(True, 0, 0)`. -/
def check (limiter : RateLimiter) (redis : Redis) (c : Check) (f : Fault) :
    Redis × (Bool × ℕ × ℤ) :=
  let r := slidingWindow windowMs limiter.limit (redis c.key) c.execution
  match f with
  | .ok => (Function.update redis c.key r.1, (r.2.allowed, r.2.count, r.2.retryAfterMs))
  | .lost => (Function.update redis c.key r.1, (true, 0, 0))
  | .rejected => (redis, (true, 0, 0))
  | .failed => (redis, (true, 0, 0))

/-- The keys after a sequence of calls of any clients with Redis reachable. -/
def afterChecks (limiter : RateLimiter) (redis : Redis) (cs : List Check) : Redis :=
  cs.foldl (fun redis c => (limiter.check redis c .ok).1) redis

/-- The calls of a client that were allowed, in a sequence of calls of any clients with Redis
reachable. -/
def allowedCalls (limiter : RateLimiter) (clientId : String) : Redis → List Check → List Check
  | _, [] => []
  | redis, c :: cs =>
    let r := limiter.check redis c .ok
    bif decide (c.clientId = clientId) && r.2.1 then c :: allowedCalls limiter clientId r.1 cs
    else allowedCalls limiter clientId r.1 cs

end RateLimiter

end TransactionPlatform
