import TransactionPlatform.Accounts.SummaryCache
import TransactionPlatform.Worker.Atomicity

/-!
# How old a summary can be

`get_account_summary` as a program over Redis and Postgres, with every failure that
`get_account_summary_cache` and `set_account_summary_cache` swallow, and with the time to live of the
cached text.  Workers commit batches at any time and may or may not get to delete a key: nothing is
assumed about the invalidation, so that what is proved here rests on the time to live alone.
-/

namespace TransactionPlatform

open Interleaved KeyedTable

namespace Staleness

/-- What the calls share: the time in milliseconds, the committed transactions and the keys of Redis
with their text and the time they expire. -/
structure SummaryWorld where
  clock : ℕ
  transactions : List Transaction
  cache : String → Option (AccountSummary × ℕ)

namespace SummaryWorld

/-- `GET`: a key that has expired is gone. -/
def get (w : SummaryWorld) (key : String) : Option AccountSummary :=
  ((w.cache key).filter fun entry => decide (w.clock ≤ entry.2)).map Prod.fst

/-- `SET key value EX ttl`. -/
def set (w : SummaryWorld) (ttlSeconds : ℕ) (key : String) (summary : AccountSummary) :
    SummaryWorld :=
  { w with cache := Function.update w.cache key (some (summary, w.clock + 1000 * ttlSeconds)) }

/-- `DEL key`. -/
def del (w : SummaryWorld) (key : String) : SummaryWorld :=
  { w with cache := Function.update w.cache key none }

end SummaryWorld

/-- The operations of `get_account_summary`. -/
inductive SummaryOp where
  | get (key : String)
  /-- The aggregate query. -/
  | query (accountId : String)
  | set (key : String) (summary : AccountSummary)

/-- What the operations answer. -/
def SummaryOp.Ans : SummaryOp → Type
  | get _ => Except Exn (Option AccountSummary)
  | query _ => Except Exn AggregateRow
  | set _ _ => Except Exn Unit

/-- What the operations do.  Redis refuses a time to live of zero. -/
def SummaryOp.exec (ttlSeconds : ℕ) :
    (o : SummaryOp) → Fault → SummaryWorld → SummaryWorld × o.Ans
  | get key, f, w => (w, if f = .ok then .ok (w.get key) else .error .RedisError)
  | query a, f, w =>
    (w, if f = .ok then .ok (aggregate w.transactions a) else .error .DBAPIError)
  | set key summary, f, w =>
    (if ttlSeconds ≠ 0 ∧ (f = .ok ∨ f = .lost) then w.set ttlSeconds key summary else w,
      if ttlSeconds ≠ 0 ∧ f = .ok then .ok () else .error .RedisError)

/-- A call of `get_account_summary` from some point on. -/
abbrev SummaryProgram := Program SummaryOp SummaryOp.Ans (Except Exn AccountSummary)

/-- `await set_account_summary_cache(...)`, which swallows its exceptions, and the `return`. -/
def storeSummary (accountId : String) (summary : AccountSummary) : SummaryProgram :=
  .call (.set (summaryKey accountId) summary) fun _ => .done (.ok summary)

/-- What follows the aggregate query. -/
def afterQuery (accountId : String) : Except Exn AggregateRow → SummaryProgram
  | .ok row => storeSummary accountId (row.summary accountId)
  | .error e => .done (.error e)

/-- The branch for a summary that is not cached. -/
def computeSummary (accountId : String) : SummaryProgram :=
  .call (.query accountId) (afterQuery accountId)

/-- What follows `get_account_summary_cache`, which swallows its exceptions. -/
def afterGet (accountId : String) : Except Exn (Option AccountSummary) → SummaryProgram
  | .ok (some cached) => .done (.ok cached)
  | .ok none => computeSummary accountId
  | .error _ => computeSummary accountId

/-- `get_account_summary`. -/
def getAccountSummary (accountId : String) : SummaryProgram :=
  .call (.get (summaryKey accountId)) (afterGet accountId)

/-- A call: its account and the time it began. -/
structure SummaryCall where
  accountId : String
  began : ℕ

/-- What reaches the shared state from outside. -/
inductive SummaryArrival where
  | request (accountId : String)
  /-- A worker commits a batch. -/
  | commit (valid : List Transaction)
  /-- A worker deletes the key of an account, or Redis evicts it. -/
  | del (accountId : String)
  | tick (ms : ℕ)

/-- The effect of an arrival. -/
def SummaryArrival.apply (w : SummaryWorld) :
    SummaryArrival → SummaryWorld × Option (SummaryCall × SummaryProgram)
  | request a => (w, some (⟨a, w.clock⟩, getAccountSummary a))
  | commit valid =>
    ({ w with transactions := insertAbsent Transaction.transactionId w.transactions valid }, none)
  | del a => (w.del (summaryKey a), none)
  | tick ms => ({ w with clock := w.clock + ms }, none)

/-- The calls as a system of interleaved programs. -/
def summaries (ttlSeconds : ℕ) :
    System SummaryWorld SummaryCall SummaryOp SummaryOp.Ans Fault SummaryArrival
      (Except Exn AccountSummary) where
  exec := SummaryOp.exec ttlSeconds
  arrive x w := some (x.apply w)

/-- A pool of calls. -/
abbrev SummaryPool :=
  Pool SummaryWorld SummaryCall SummaryOp SummaryOp.Ans (Except Exn AccountSummary)

abbrev SummaryEvent := Interleaved.Event Fault SummaryArrival

/-- Nothing is cached and no call has begun. -/
def start (clock : ℕ) (T : List Transaction) : SummaryPool := ⟨⟨clock, T, fun _ => none⟩, []⟩

/-! ### Where a summary comes from -/

/-- A call takes its steps within `delay` milliseconds. -/
def Prompt (delay : ℕ) (c : SummaryPool) : SummaryEvent → Prop
  | .run i _ => ∀ t p, c.procs[i]? = some ⟨t, p⟩ → c.world.clock ≤ t.began + delay
  | _ => True

section Origin

variable {ttl : ℕ} {C : SummaryPool → SummaryEvent → Prop} {c₀ c d : SummaryPool}
variable {e : SummaryEvent} {a : String} {s : AccountSummary} {k : ℕ} {Q Q' : SummaryPool → Prop}

/-- The summary is that of a table that was committed in a state with `Q`. -/
def Origin (ttl : ℕ) (C : SummaryPool → SummaryEvent → Prop) (c₀ c : SummaryPool) (a : String)
    (s : AccountSummary) (Q : SummaryPool → Prop) : Prop :=
  ∃ e, (summaries ttl).Reaches C c₀ e ∧ (summaries ttl).Reaches C e c ∧
    s = summaryOf e.world.transactions a ∧ Q e

theorem Origin.tail (h : Origin ttl C c₀ c a s Q) (hc : C c e)
    (hn : (summaries ttl).next c e = some d) : Origin ttl C c₀ d a s Q := by
  obtain ⟨m, hm, hmc, hs, hQ⟩ := h
  exact ⟨m, hm, hmc.tail hc hn, hs, hQ⟩

theorem Origin.mono (h : Origin ttl C c₀ c a s Q) (hQ : ∀ m, Q m → Q' m) :
    Origin ttl C c₀ c a s Q' := by
  obtain ⟨m, hm, hmc, hs, hm'⟩ := h
  exact ⟨m, hm, hmc, hs, hQ m hm'⟩

/-- The time is `τ` or later, up to `k` milliseconds. -/
def Since (τ k : ℕ) (c : SummaryPool) : Prop := τ ≤ c.world.clock + k

theorem Since.mono {τ τ' k' : ℕ} (hle : τ' + k ≤ τ + k') (h : Since τ k c) : Since τ' k' c := by
  unfold Since at h ⊢
  omega

/-- The `i`-th call is at its query, and the time is its begin or later. -/
def Asking (i : ℕ) (t : SummaryCall) (c : SummaryPool) : Prop :=
  c.procs[i]? = some ⟨t, some (computeSummary t.accountId)⟩ ∧ Since t.began 0 c

/-- Where the `i`-th call stands: it has done nothing, it has missed the cache, it has run its query
itself, or it has returned a summary that is not too old; without `hits` that is the one it has
computed. -/
inductive CallAt (ttl : ℕ) (C : SummaryPool → SummaryEvent → Prop) (c₀ c : SummaryPool)
    (hits : Prop) (k i : ℕ) (t : SummaryCall) : SummaryProgram → Prop where
  | begun : CallAt ttl C c₀ c hits k i t (getAccountSummary t.accountId)
  | missed : CallAt ttl C c₀ c hits k i t (computeSummary t.accountId)
  | computed {s : AccountSummary} (h : Origin ttl C c₀ c t.accountId s (Asking i t)) :
      CallAt ttl C c₀ c hits k i t (storeSummary t.accountId s)
  | returned {s : AccountSummary}
      (h : Origin ttl C c₀ c t.accountId s fun m => Since t.began k m ∧ (¬ hits → Asking i t m)) :
      CallAt ttl C c₀ c hits k i t (.done (.ok s))
  | raised {x : Exn} : CallAt ttl C c₀ c hits k i t (.done (.error x))

variable {hits : Prop}

theorem CallAt.tail {i : ℕ} {t : SummaryCall} {p : SummaryProgram}
    (h : CallAt ttl C c₀ c hits k i t p) (hc : C c e) (hn : (summaries ttl).next c e = some d) :
    CallAt ttl C c₀ d hits k i t p := by
  cases h with
  | begun => exact .begun
  | missed => exact .missed
  | computed h => exact .computed (h.tail hc hn)
  | returned h => exact .returned (h.tail hc hn)
  | raised => exact .raised

/-- The invariant: what is returned comes from a committed table, and so does what is cached, as far
as calls get to see it. -/
structure Sound (ttl : ℕ) (C : SummaryPool → SummaryEvent → Prop) (c₀ : SummaryPool) (hits : Prop)
    (k : ℕ) (c : SummaryPool) : Prop where
  reached : (summaries ttl).Reaches C c₀ c
  cached : hits → ∀ (a : String) (s : AccountSummary) (x : ℕ),
    c.world.cache (summaryKey a) = some (s, x) → Origin ttl C c₀ c a s (Since x k)
  began : ∀ (i : ℕ) (t : SummaryCall) (p : Option SummaryProgram), c.procs[i]? = some ⟨t, p⟩ →
    t.began ≤ c.world.clock
  call : ∀ (i : ℕ) (t : SummaryCall) (p : SummaryProgram), c.procs[i]? = some ⟨t, some p⟩ →
    CallAt ttl C c₀ c hits k i t p

theorem sound_start (ttl k clock : ℕ) (T : List Transaction) :
    Sound ttl C (start clock T) hits k (start clock T) where
  reached := .refl
  cached _ _ _ _ h := by cases h
  began _ _ _ h := by cases h
  call _ _ _ h := by cases h

/-- What a query finds. -/
theorem Sound.origin (h : Sound ttl C c₀ hits k c) (a : String) (hQ : Q c) :
    Origin ttl C c₀ c a (summaryOf c.world.transactions a) Q :=
  ⟨c, h.reached, .refl, rfl, hQ⟩

theorem get_eq_some {w : SummaryWorld} {key : String} (h : w.get key = some s) :
    ∃ x, w.cache key = some (s, x) ∧ w.clock ≤ x := by
  unfold SummaryWorld.get at h
  obtain ⟨entry, hentry, rfl⟩ := Option.map_eq_some_iff.mp h
  obtain ⟨hcache, hle⟩ := Option.filter_eq_some_iff.mp hentry
  exact ⟨entry.2, hcache, of_decide_eq_true hle⟩

/-- What an operation of a call does to the shared state. -/
theorem exec_cases (ttl : ℕ) (o : SummaryOp) (f : Fault) (w : SummaryWorld) :
    (SummaryOp.exec ttl o f w).1 = w ∨
      ∃ key summary, o = .set key summary ∧ (SummaryOp.exec ttl o f w).1 = w.set ttl key summary := by
  cases o with
  | get key => exact .inl rfl
  | query a => exact .inl rfl
  | set key summary =>
    by_cases h : ttl ≠ 0 ∧ (f = .ok ∨ f = .lost)
    · exact .inr ⟨key, summary, rfl, if_pos h⟩
    · exact .inl (if_neg h)

theorem cache_set_cases {w : SummaryWorld} {key key' : String} {x : ℕ} {s' : AccountSummary}
    (h : (w.set ttl key s).cache key' = some (s', x)) :
    (key' = key ∧ s' = s ∧ x = w.clock + 1000 * ttl) ∨ w.cache key' = some (s', x) := by
  by_cases hkey : key' = key
  · subst hkey
    have hself : (w.set ttl key' s).cache key' = some (s, w.clock + 1000 * ttl) :=
      Function.update_self ..
    cases hself.symm.trans h
    exact .inl ⟨rfl, rfl, rfl⟩
  · have hother : (w.set ttl key s).cache key' = w.cache key' := Function.update_of_ne hkey ..
    exact .inr (hother.symm.trans h)

/-- Redis does not answer a `GET`. -/
def Unavailable (c : SummaryPool) : SummaryEvent → Prop
  | .run i f => ∀ t key k, c.procs[i]? = some ⟨t, some (.call (.get key) k)⟩ → f ≠ .ok
  | _ => True

/-- The part of the invariant about the call that makes a step. -/
theorem Sound.call_run {i : ℕ} {f : Fault} {t : SummaryCall} {o : SummaryOp}
    {rest : o.Ans → SummaryProgram} (h : Sound ttl C c₀ hits k c)
    (hmiss : ¬ hits → Unavailable c (.run i f)) (hi : c.procs[i]? = some ⟨t, some (.call o rest)⟩)
    (hc : C c (.run i f)) (hn : (summaries ttl).next c (.run i f) = some d) :
    CallAt ttl C c₀ d hits k i t (rest (SummaryOp.exec ttl o f c.world).2) := by
  have hbegan := h.began i t _ hi
  have hat := h.call i t _ hi
  generalize hp : (Program.call o rest : SummaryProgram) = p at hat
  cases hat with
  | begun =>
    cases hp
    by_cases hf : f = .ok
    · have hans : (SummaryOp.exec ttl (.get (summaryKey t.accountId)) f c.world).2 =
          .ok (c.world.get (summaryKey t.accountId)) := if_pos hf
      have hhits : hits := by
        by_contra hno
        exact hmiss hno t _ _ hi hf
      rw [hans]
      cases hget : c.world.get (summaryKey t.accountId) with
      | none => exact .missed
      | some s =>
        obtain ⟨x, hx, hle⟩ := get_eq_some hget
        refine .returned (((h.cached hhits _ _ _ hx).tail hc hn).mono fun m hm => ?_)
        exact ⟨hm.mono (by omega), fun hno => absurd hhits hno⟩
    · have hans : (SummaryOp.exec ttl (.get (summaryKey t.accountId)) f c.world).2 =
          .error .RedisError := if_neg hf
      rw [hans]
      exact .missed
  | missed =>
    cases hp
    by_cases hf : f = .ok
    · have hans : (SummaryOp.exec ttl (.query t.accountId) f c.world).2 =
          .ok (aggregate c.world.transactions t.accountId) := if_pos hf
      rw [hans]
      exact .computed ((h.origin t.accountId ⟨hi, hbegan⟩).tail hc hn)
    · have hans : (SummaryOp.exec ttl (.query t.accountId) f c.world).2 = .error .DBAPIError :=
        if_neg hf
      rw [hans]
      exact .raised
  | computed horigin =>
    cases hp
    exact .returned ((horigin.tail hc hn).mono fun m hm =>
      ⟨hm.2.mono (by omega), fun _ => hm⟩)
  | returned => cases hp
  | raised => cases hp

/-- A summary is cached soon after its query. -/
theorem Sound.cached_run {delay i : ℕ} {f : Fault} {t : SummaryCall} {o : SummaryOp}
    {rest : o.Ans → SummaryProgram} (h : Sound ttl C c₀ hits k c) (hhits : hits)
    (hprompt : Prompt delay c (.run i f)) (hk : delay + 1000 * ttl ≤ k)
    (hi : c.procs[i]? = some ⟨t, some (.call o rest)⟩) (hc : C c (.run i f))
    (hn : (summaries ttl).next c (.run i f) = some d) {x : ℕ}
    (hx : (SummaryOp.exec ttl o f c.world).1.cache (summaryKey a) = some (s, x)) :
    Origin ttl C c₀ d a s (Since x k) := by
  rcases exec_cases ttl o f c.world with hw | ⟨key, summary, rfl, hw⟩
  · rw [hw] at hx
    exact (h.cached hhits a s x hx).tail hc hn
  · rw [hw] at hx
    rcases cache_set_cases hx with ⟨hkey, rfl, rfl⟩ | hx
    · have hclock := hprompt t _ hi
      have hat := h.call i t _ hi
      generalize hp : (Program.call (.set key s) rest : SummaryProgram) = p at hat
      cases hat with
      | begun => cases hp
      | missed => cases hp
      | computed horigin =>
        cases hp
        rw [SummaryCache.summaryKey_injective hkey]
        exact (horigin.tail hc hn).mono fun m hm => hm.2.mono (by omega)
      | returned => cases hp
      | raised => cases hp
    · exact (h.cached hhits a s x hx).tail hc hn

theorem clock_exec (ttl : ℕ) (o : SummaryOp) (f : Fault) (w : SummaryWorld) :
    (SummaryOp.exec ttl o f w).1.clock = w.clock := by
  rcases exec_cases ttl o f w with h | ⟨key, summary, -, h⟩
  · rw [h]
  · rw [h]
    rfl

/-- What an arrival does to the time and to the keys. -/
theorem apply_cases (x : SummaryArrival) (w : SummaryWorld) :
    w.clock ≤ (x.apply w).1.clock ∧
      ∀ key entry, (x.apply w).1.cache key = some entry → w.cache key = some entry := by
  cases x with
  | request a => exact ⟨Nat.le_refl _, fun _ _ h => h⟩
  | commit valid => exact ⟨Nat.le_refl _, fun _ _ h => h⟩
  | tick ms => exact ⟨Nat.le_add_right _ _, fun _ _ h => h⟩
  | del a =>
    refine ⟨Nat.le_refl _, fun key entry h => ?_⟩
    by_cases hkey : key = summaryKey a
    · subst hkey
      have hnone : (w.del (summaryKey a)).cache (summaryKey a) = none := Function.update_self ..
      cases hnone.symm.trans h
    · have hother : (w.del (summaryKey a)).cache key = w.cache key :=
        Function.update_of_ne hkey ..
      exact hother.symm.trans h

/-- The invariant after an arrival, for the calls that were there. -/
theorem Sound.arrive {x : SummaryArrival} (h : Sound ttl C c₀ hits k c) (hc : C c (.arrive x))
    (hn : (summaries ttl).next c (.arrive x) = some d) (hd : d.world = (x.apply c.world).1)
    (hprocs : ∀ (i : ℕ) (t : SummaryCall) (p : Option SummaryProgram), d.procs[i]? = some ⟨t, p⟩ →
      c.procs[i]? = some ⟨t, p⟩ ∨
        t.began = c.world.clock ∧ p = some (getAccountSummary t.accountId)) :
    Sound ttl C c₀ hits k d := by
  obtain ⟨hclock, hcache⟩ := apply_cases x c.world
  refine ⟨h.reached.tail hc hn, ?_, ?_, ?_⟩
  · intro hhits a s y hy
    rw [hd] at hy
    exact (h.cached hhits a s y (hcache _ _ hy)).tail hc hn
  · intro i t p hi
    rw [hd]
    rcases hprocs i t p hi with hold | ⟨hbegan, -⟩
    · exact Nat.le_trans (h.began i t p hold) hclock
    · rw [hbegan]
      exact hclock
  · intro i t p hi
    rcases hprocs i t (some p) hi with hold | ⟨-, hp⟩
    · exact (h.call i t p hold).tail hc hn
    · cases hp
      exact .begun

/-- One event keeps the invariant. -/
theorem Sound.next (delay : ℕ) (h : Sound ttl C c₀ hits k c) (hprompt : hits → Prompt delay c e)
    (hk : hits → delay + 1000 * ttl ≤ k) (hmiss : ¬ hits → Unavailable c e) (hc : C c e)
    (hn : (summaries ttl).next c e = some d) : Sound ttl C c₀ hits k d := by
  rcases System.next_cases hn with ⟨i, f, t, o, rest, rfl, hi, rfl⟩ | ⟨i, t, o, rest, rfl, hi, rfl⟩ |
    ⟨x, w, rfl, hx, rfl⟩ | ⟨x, w, t, p, rfl, hx, rfl⟩
  · refine ⟨h.reached.tail hc hn, fun hhits a s x hx => ?_, fun j t' p hj => ?_, fun j t' p hj => ?_⟩
    · exact h.cached_run hhits (hprompt hhits) (hk hhits) hi hc hn hx
    · show t'.began ≤ (SummaryOp.exec ttl o f c.world).1.clock
      rw [clock_exec]
      rcases getElem?_set_eq_some hj with ⟨-, heq⟩ | ⟨-, hold⟩
      · cases heq
        exact h.began i t _ hi
      · exact h.began j t' p hold
    · rcases getElem?_set_eq_some hj with ⟨rfl, heq⟩ | ⟨-, hold⟩
      · cases heq
        exact h.call_run hmiss hi hc hn
      · exact (h.call j t' p hold).tail hc hn
  · refine ⟨h.reached.tail hc hn, fun hhits a s x hx => ?_, fun j t' p hj => ?_, fun j t' p hj => ?_⟩
    · exact (h.cached hhits a s x hx).tail hc hn
    · rcases getElem?_set_eq_some hj with ⟨-, heq⟩ | ⟨-, hold⟩
      · cases heq
        exact h.began i t _ hi
      · exact h.began j t' p hold
    · rcases getElem?_set_eq_some hj with ⟨-, heq⟩ | ⟨-, hold⟩
      · cases heq
      · exact (h.call j t' p hold).tail hc hn
  · have hw : x.apply c.world = (w, none) := Option.some.inj hx
    exact h.arrive hc hn (by rw [hw]) fun i t p hi => .inl hi
  · have hw : x.apply c.world = (w, some (t, p)) := Option.some.inj hx
    refine h.arrive hc hn (by rw [hw]) fun i t' p' hi => ?_
    rcases getElem?_concat_eq_some hi with ⟨-, heq⟩ | ⟨-, hold⟩
    · cases x with
      | request a =>
        cases hw
        cases heq
        exact .inr ⟨rfl, rfl⟩
      | commit valid => cases hw
      | del a => cases hw
      | tick ms => cases hw
    · exact .inl hold

theorem Sound.origin_of_result {i : ℕ} (h : Sound ttl C c₀ hits k c) {t : SummaryCall}
    (hi : c.procs[i]? = some ⟨t, some (.done (.ok s))⟩) :
    Origin ttl C c₀ c t.accountId s fun m => Since t.began k m ∧ (¬ hits → Asking i t m) := by
  have hat := h.call i t _ hi
  generalize hp : (Program.done (.ok s) : SummaryProgram) = p at hat
  cases hat with
  | begun => cases hp
  | missed => cases hp
  | computed => cases hp
  | returned horigin =>
    cases hp
    exact horigin
  | raised => cases hp

end Origin

/-- Let every call take its steps within `delay` milliseconds.  Then, in every run, whatever Redis
swallows, whatever batches commit and whether or not their keys are deleted, a summary that a call
returns is the summary of a table that was committed at most `ttl` seconds and `delay` milliseconds
before the call began. -/
theorem summary_staleness_bounded (ttl delay clock : ℕ) (T : List Transaction) {c : SummaryPool}
    (hc : (summaries ttl).Reaches (Prompt delay) (start clock T) c) {i : ℕ} {t : SummaryCall}
    {s : AccountSummary} (hi : c.procs[i]? = some ⟨t, some (.done (.ok s))⟩) :
    ∃ e, (summaries ttl).Reaches (Prompt delay) (start clock T) e ∧
      (summaries ttl).Reaches (Prompt delay) e c ∧ s = summaryOf e.world.transactions t.accountId ∧
      t.began ≤ e.world.clock + (delay + 1000 * ttl) := by
  have hsound : Sound ttl (Prompt delay) (start clock T) True (delay + 1000 * ttl) c := by
    clear hi
    induction hc with
    | refl => exact sound_start ttl _ clock T
    | tail _ hC hn ih =>
      exact ih.next delay (fun _ => hC) (fun _ => Nat.le_refl _) (fun h => absurd trivial h) hC hn
  obtain ⟨e, he, hec, hs, hbegan, -⟩ := hsound.origin_of_result hi
  exact ⟨e, he, hec, hs, hbegan⟩

/-- A test for `Prompt`. -/
def promptTest (delay : ℕ) (c : SummaryPool) : SummaryEvent → Bool
  | .run i _ => (c.procs[i]?).all fun p => decide (c.world.clock ≤ p.tag.began + delay)
  | _ => true

theorem prompt_of_test {delay : ℕ} {c : SummaryPool} {e : SummaryEvent}
    (h : promptTest delay c e = true) : Prompt delay c e := by
  cases e with
  | run i f =>
    intro t p hi
    rw [promptTest, hi] at h
    exact of_decide_eq_true h
  | crash i => trivial
  | arrive x => trivial

/-- A summary is cached, a batch commits and does not delete the key, and a call that begins 59
seconds later gets the cached summary. -/
def sampleStale : List SummaryEvent :=
  [.arrive (.request "A1"), .run 0 .ok, .run 0 .ok, .run 0 .ok,
    .arrive (.commit [sampleTransaction]), .arrive (.tick 59000), .arrive (.request "A1"), .run 1 .ok]

/-- What the `i`-th call has returned. -/
def answerOf (c : SummaryPool) (i : ℕ) : Option (String × ℕ × AccountSummary) :=
  (c.procs[i]?).bind fun p =>
    (p.result.bind Except.toOption).map fun s => (p.tag.accountId, p.tag.began, s)

theorem getElem?_of_answerOf {c : SummaryPool} {i : ℕ} {a : String} {τ : ℕ} {s : AccountSummary}
    (h : answerOf c i = some (a, τ, s)) : c.procs[i]? = some ⟨⟨a, τ⟩, some (.done (.ok s))⟩ := by
  obtain ⟨p, hp, hmap⟩ := Option.bind_eq_some_iff.mp h
  obtain ⟨s', hs', heq⟩ := Option.map_eq_some_iff.mp hmap
  obtain ⟨x, hx, hok⟩ := Option.bind_eq_some_iff.mp hs'
  obtain ⟨t, prog⟩ := p
  cases heq
  cases x with
  | error e => cases hok
  | ok y =>
    cases hok
    obtain rfl : prog = some (.done (.ok s)) := Proc.result_eq_some.mp hx
    exact hp

theorem sample_staleness_bounded :
    ∃ c, (summaries 60).Reaches (Prompt 100) (start 0 []) c ∧
      c.world.transactions = [sampleTransaction] ∧
      answerOf c 1 = some ("A1", 59000, summaryOf [] "A1") ∧
      ∃ e, (summaries 60).Reaches (Prompt 100) (start 0 []) e ∧
        (summaries 60).Reaches (Prompt 100) e c ∧
        summaryOf [] "A1" = summaryOf e.world.transactions "A1" ∧
        59000 ≤ e.world.clock + (100 + 1000 * 60) := by
  have hrun : ((summaries 60).perform (promptTest 100) (start 0 []) sampleStale).map
      (fun c => (c.world.transactions, answerOf c 1)) =
      some ([sampleTransaction], some ("A1", 59000, summaryOf [] "A1")) := by decide +kernel
  obtain ⟨c, hc, hout⟩ := Option.map_eq_some_iff.mp hrun
  obtain ⟨htable, hans⟩ := Prod.mk.inj hout
  have hreach : (summaries 60).Reaches (Prompt 100) (start 0 []) c :=
    System.reaches_of_perform (fun _ _ => prompt_of_test) hc
  exact ⟨c, hreach, htable, hans,
    summary_staleness_bounded 60 100 0 [] hreach (getElem?_of_answerOf hans)⟩

/-- While Redis does not answer, every summary is that of a table that was committed during the
call: when the call, which is not over yet, stood at its query. -/
theorem summary_current_without_redis (ttl clock : ℕ) (T : List Transaction) {c : SummaryPool}
    (hc : (summaries ttl).Reaches Unavailable (start clock T) c) {i : ℕ} {t : SummaryCall}
    {s : AccountSummary} (hi : c.procs[i]? = some ⟨t, some (.done (.ok s))⟩) :
    ∃ e, (summaries ttl).Reaches Unavailable (start clock T) e ∧
      (summaries ttl).Reaches Unavailable e c ∧ s = summaryOf e.world.transactions t.accountId ∧
      t.began ≤ e.world.clock ∧
      e.procs[i]? = some ⟨t, some (computeSummary t.accountId)⟩ := by
  have hsound : Sound ttl Unavailable (start clock T) False 0 c := by
    clear hi
    induction hc with
    | refl => exact sound_start ttl _ clock T
    | tail _ hC hn ih =>
      exact ih.next 0 False.elim False.elim (fun _ => hC) hC hn
  obtain ⟨e, he, hec, hs, hbegan, hasks⟩ := hsound.origin_of_result hi
  exact ⟨e, he, hec, hs, hbegan, (hasks not_false).1⟩

/-- The next operation of the call is its `GET`. -/
def asksRedis : SummaryProgram → Bool
  | .call (.get _) _ => true
  | _ => false

/-- A test for `Unavailable`. -/
def unavailableTest (c : SummaryPool) : SummaryEvent → Bool
  | .run i f => decide (f ≠ .ok) || (c.procs[i]?).all fun p => p.prog.all fun q => !asksRedis q
  | _ => true

theorem unavailable_of_test {c : SummaryPool} {e : SummaryEvent}
    (h : unavailableTest c e = true) : Unavailable c e := by
  cases e with
  | run i f =>
    intro t key k hi
    rw [unavailableTest, hi] at h
    rcases Bool.or_eq_true_iff.mp h with h | h
    · exact of_decide_eq_true h
    · cases h
  | crash i => trivial
  | arrive x => trivial

/-- The operations of Redis fail, and the call returns the summary of the committed table. -/
theorem sample_current_without_redis :
    ∃ c, (summaries 60).Reaches Unavailable (start 0 [sampleTransaction]) c ∧
      answerOf c 0 = some ("A1", 0, summaryOf [sampleTransaction] "A1") ∧
      ∃ e, (summaries 60).Reaches Unavailable (start 0 [sampleTransaction]) e ∧
        (summaries 60).Reaches Unavailable e c ∧
        summaryOf [sampleTransaction] "A1" = summaryOf e.world.transactions "A1" ∧
        0 ≤ e.world.clock ∧ e.procs[0]? = some ⟨⟨"A1", 0⟩, some (computeSummary "A1")⟩ := by
  have hrun : ((summaries 60).perform unavailableTest (start 0 [sampleTransaction])
      [.arrive (.request "A1"), .run 0 .failed, .run 0 .ok, .run 0 .failed]).map
      (fun c => answerOf c 0) = some (some ("A1", 0, summaryOf [sampleTransaction] "A1")) := by
    decide +kernel
  obtain ⟨c, hc, hans⟩ := Option.map_eq_some_iff.mp hrun
  have hreach : (summaries 60).Reaches Unavailable (start 0 [sampleTransaction]) c :=
    System.reaches_of_perform (fun _ _ => unavailable_of_test) hc
  exact ⟨c, hreach, hans,
    summary_current_without_redis 60 0 [sampleTransaction] hreach (getElem?_of_answerOf hans)⟩

end Staleness

end TransactionPlatform
