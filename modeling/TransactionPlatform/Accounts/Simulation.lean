import TransactionPlatform.Accounts.Staleness

/-!
# The two models of the calls

`SummaryCache` describes a call of `get_account_summary` by its phases, next to batches that delete
their keys, and lets the cache forget a key at any time.  `Staleness` has the call as a program, with
a clock and a time to live.  While Redis answers, the programs do nothing that the phases do not
allow: a key that has expired is a key that was forgotten, and a `DEL` at any time is one as well.
-/

namespace TransactionPlatform

open Interleaved KeyedTable

namespace Staleness

/-- Redis answers every `GET` and executes every `SET`. -/
def Answered (c : SummaryPool) : SummaryEvent → Prop
  | .run i f => ∀ t o k, c.procs[i]? = some ⟨t, some (.call o k)⟩ →
    match o with
    | .get _ => f = .ok
    | .query _ => True
    | .set _ _ => f = .ok ∨ f = .lost
  | _ => True

/-- The phase of a call for the account.  A call that has raised or crashed stays in its phase. -/
inductive StandsAt (a : String) : Option SummaryProgram → ReadPhase → Prop where
  | begun : StandsAt a (some (getAccountSummary a)) .begun
  | missed : StandsAt a (some (computeSummary a)) .missed
  | computed (seen : List Transaction) :
      StandsAt a (some (storeSummary a (summaryOf seen a))) (.computed seen)
  | returned (s : AccountSummary) : StandsAt a (some (.done (.ok s))) (.returned s)
  | raised (x : Exn) (phase : ReadPhase) : StandsAt a (some (.done (.error x))) phase
  | crashed (phase : ReadPhase) : StandsAt a none phase

/-- The phases are those of the programs, and what a `GET` finds is in the cache. -/
structure Shows (c : SummaryPool) (d : Accounts) : Prop where
  transactions : d.transactions = c.world.transactions
  cache : ∀ a s, c.world.get (summaryKey a) = some s → d.cache.get a = some s
  length : d.reads.length = c.procs.length
  reads : ∀ (i : ℕ) (t : SummaryCall) (p : Option SummaryProgram), c.procs[i]? = some ⟨t, p⟩ →
    ∃ phase, d.reads[i]? = some ⟨t.accountId, phase⟩ ∧ StandsAt t.accountId p phase

variable {ttl : ℕ} {c c' : SummaryPool} {d : Accounts} {e : SummaryEvent}

/-- One call goes on. -/
theorem Shows.step {i : ℕ} {t : SummaryCall} {p p' : Option SummaryProgram} {phase : ReadPhase}
    {w : SummaryWorld} {cache : SummaryCache} (h : Shows c d) (hi : c.procs[i]? = some ⟨t, p⟩)
    (hst : StandsAt t.accountId p' phase) (htable : w.transactions = c.world.transactions)
    (hcache : ∀ a s, w.get (summaryKey a) = some s → cache.get a = some s) :
    Shows ⟨w, c.procs.set i ⟨t, p'⟩⟩ { d.setRead i t.accountId phase with cache := cache } := by
  refine ⟨h.transactions.trans htable.symm, hcache, ?_, fun j t' q hj => ?_⟩
  · show (d.reads.set i _).length = (c.procs.set i _).length
    rw [List.length_set, List.length_set]
    exact h.length
  · show ∃ phase', (d.reads.set i _)[j]? = some _ ∧ _
    rcases getElem?_set_eq_some hj with ⟨rfl, heq⟩ | ⟨hne, hold⟩
    · cases heq
      obtain ⟨hlt, -⟩ := List.getElem?_eq_some_iff.mp hi
      exact ⟨phase, List.getElem?_set_self (h.length ▸ hlt), hst⟩
    · obtain ⟨phase', hread, hst'⟩ := h.reads j t' q hold
      exact ⟨phase', (List.getElem?_set_ne (Ne.symm hne)).trans hread, hst'⟩

/-- A call stops where it stands. -/
theorem Shows.stop {i : ℕ} {t : SummaryCall} {p p' : Option SummaryProgram} (h : Shows c d)
    (hi : c.procs[i]? = some ⟨t, p⟩) (hst : ∀ phase, StandsAt t.accountId p' phase) :
    Shows ⟨c.world, c.procs.set i ⟨t, p'⟩⟩ d := by
  obtain ⟨phase, hread, -⟩ := h.reads i t p hi
  have hstep := h.step hi (hst phase) rfl h.cache
  rwa [Accounts.setRead, set_eq_self hread] at hstep

/-- What is there for a `GET` after `DEL`. -/
theorem get_del {w : SummaryWorld} {a a' : String} {s : AccountSummary}
    (h : (w.del (summaryKey a)).get (summaryKey a') = some s) :
    a' ≠ a ∧ w.get (summaryKey a') = some s := by
  have hne : a' ≠ a := by
    rintro rfl
    have hnone : (w.del (summaryKey a')).cache (summaryKey a') = none := Function.update_self ..
    rw [SummaryWorld.get, hnone] at h
    cases h
  have hkey : summaryKey a' ≠ summaryKey a := fun hk => hne (SummaryCache.summaryKey_injective hk)
  have hother : (w.del (summaryKey a)).cache (summaryKey a') = w.cache (summaryKey a') :=
    Function.update_of_ne hkey ..
  rw [SummaryWorld.get, hother] at h
  exact ⟨hne, h⟩

/-- What is there for a `GET` after `SET`. -/
theorem get_set {w : SummaryWorld} {a a' : String} {s s' : AccountSummary}
    (h : (w.set ttl (summaryKey a) s).get (summaryKey a') = some s') :
    (a' = a ∧ s' = s) ∨ (a' ≠ a ∧ w.get (summaryKey a') = some s') := by
  by_cases heq : a' = a
  · subst heq
    have hself : (w.set ttl (summaryKey a') s).cache (summaryKey a') =
        some (s, w.clock + 1000 * ttl) := Function.update_self ..
    obtain ⟨x, hx, -⟩ := get_eq_some h
    cases hself.symm.trans hx
    exact .inl ⟨rfl, rfl⟩
  · have hkey : summaryKey a' ≠ summaryKey a := fun hk => heq (SummaryCache.summaryKey_injective hk)
    have hother : (w.set ttl (summaryKey a) s).cache (summaryKey a') = w.cache (summaryKey a') :=
      Function.update_of_ne hkey ..
    rw [SummaryWorld.get, hother] at h
    exact .inr ⟨heq, h⟩

/-- A key that is there later is there now. -/
theorem get_later {w : SummaryWorld} {ms : ℕ} {key : String} {s : AccountSummary}
    (h : { w with clock := w.clock + ms }.get key = some s) : w.get key = some s := by
  obtain ⟨x, hx, hle⟩ := get_eq_some h
  have hx' : w.cache key = some (s, x) := hx
  have hle' : w.clock ≤ x := Nat.le_trans (Nat.le_add_right _ _) hle
  rw [SummaryWorld.get, hx', Option.filter_some, decide_eq_true hle']
  rfl

/-- One operation of a call. -/
theorem Shows.run {i : ℕ} {f : Fault} {t : SummaryCall} {o : SummaryOp}
    {rest : o.Ans → SummaryProgram} (httl : ttl ≠ 0) (h : Shows c d)
    (hi : c.procs[i]? = some ⟨t, some (.call o rest)⟩) (hC : Answered c (.run i f)) :
    ∃ d', Accounts.Reaches (fun _ _ => True) d d' ∧
      Shows ⟨(SummaryOp.exec ttl o f c.world).1,
        c.procs.set i ⟨t, some (rest (SummaryOp.exec ttl o f c.world).2)⟩⟩ d' := by
  obtain ⟨phase, hread, hst⟩ := h.reads i t _ hi
  have hans := hC t o rest hi
  generalize hp : some (Program.call o rest) = p at hst
  cases hst with
  | begun =>
    cases hp
    obtain rfl : f = .ok := hans
    have hexec : SummaryOp.exec ttl (.get (summaryKey t.accountId)) .ok c.world =
        (c.world, .ok (c.world.get (summaryKey t.accountId))) := rfl
    cases hget : c.world.get (summaryKey t.accountId) with
    | some s =>
      have hnext : d.next (.get i) = some (d.setRead i t.accountId (.returned s)) := by
        simp only [Accounts.next, hread, h.cache _ _ hget, Accounts.afterGet]
      refine ⟨_, .single ⟨.get i, trivial, hnext⟩, ?_⟩
      rw [hexec, hget]
      exact h.step hi (.returned s) rfl h.cache
    | none =>
      -- the key has expired, if it is in the cache at all
      have hmissed : ({ d with cache := d.cache.invalidate t.accountId } : Accounts).next (.get i) =
          some { d.setRead i t.accountId .missed with
            cache := d.cache.invalidate t.accountId } := by
        simp only [Accounts.next, hread, SummaryCache.get_invalidate_self, Accounts.afterGet,
          Accounts.setRead]
      refine ⟨_, Relation.ReflTransGen.tail (.single ⟨.expire t.accountId, trivial, rfl⟩)
        ⟨.get i, trivial, hmissed⟩, ?_⟩
      rw [hexec, hget]
      refine h.step hi .missed rfl fun a s hs => ?_
      have hne : a ≠ t.accountId := by
        rintro rfl
        rw [hget] at hs
        cases hs
      rw [SummaryCache.get_invalidate_of_ne hne]
      exact h.cache a s hs
  | missed =>
    cases hp
    by_cases hf : f = .ok
    · subst hf
      have hnext : d.next (.query i) =
          some (d.setRead i t.accountId (.computed d.transactions)) := by
        simp only [Accounts.next, hread]
      refine ⟨_, .single ⟨.query i, trivial, hnext⟩, ?_⟩
      rw [h.transactions]
      exact h.step hi (.computed c.world.transactions) rfl h.cache
    · refine ⟨d, .refl, ?_⟩
      have hraise : (SummaryOp.exec ttl (.query t.accountId) f c.world).2 = .error .DBAPIError :=
        if_neg hf
      rw [hraise]
      exact h.stop hi fun phase => .raised _ phase
  | computed seen =>
    cases hp
    have hset : (SummaryOp.exec ttl (.set (summaryKey t.accountId) (summaryOf seen t.accountId)) f
        c.world).1 = c.world.set ttl (summaryKey t.accountId) (summaryOf seen t.accountId) :=
      if_pos ⟨httl, hans⟩
    have hnext : d.next (.set i) =
        some { d.setRead i t.accountId (.returned (summaryOf seen t.accountId)) with
          cache := d.cache.set t.accountId (summaryOf seen t.accountId) } := by
      simp only [Accounts.next, hread]
    refine ⟨_, .single ⟨.set i, trivial, hnext⟩, ?_⟩
    rw [hset]
    refine h.step hi (.returned _) rfl fun a s hs => ?_
    rcases get_set hs with ⟨rfl, rfl⟩ | ⟨hne, hs⟩
    · exact SummaryCache.get_set_self
    · rw [SummaryCache.get_set_of_ne hne]
      exact h.cache a s hs
  | returned s => cases hp
  | raised x => cases hp
  | crashed => cases hp

/-- A call begins. -/
theorem Shows.request (h : Shows c d) (a : String) :
    Shows ⟨c.world, c.procs ++ [⟨⟨a, c.world.clock⟩, some (getAccountSummary a)⟩]⟩
      (d.request a) := by
  refine ⟨h.transactions, h.cache, ?_, fun j t p hj => ?_⟩
  · show (d.reads ++ [_]).length = (c.procs ++ [_]).length
    rw [List.length_append, List.length_append, h.length]
    rfl
  · show ∃ phase, (d.reads ++ [_])[j]? = some _ ∧ _
    rcases getElem?_concat_eq_some hj with ⟨rfl, heq⟩ | ⟨-, hold⟩
    · cases heq
      rw [← h.length]
      exact ⟨.begun, List.getElem?_concat_length, .begun⟩
    · obtain ⟨phase, hread, hst⟩ := h.reads j t p hold
      obtain ⟨hlt, -⟩ := List.getElem?_eq_some_iff.mp hread
      exact ⟨phase, (List.getElem?_append_left hlt).trans hread, hst⟩

/-- What changes the shared state from outside. -/
theorem Shows.outside (h : Shows c d) {x : SummaryArrival} (hx : (x.apply c.world).2 = none) :
    ∃ d', Accounts.Reaches (fun _ _ => True) d d' ∧ Shows ⟨(x.apply c.world).1, c.procs⟩ d' := by
  cases x with
  | request a => cases hx
  | commit valid =>
    have hbegun : (d.batches ++ [⟨valid, .begun⟩])[d.batches.length]? = some ⟨valid, .begun⟩ :=
      List.getElem?_concat_length
    have hnext : ({ d with batches := d.batches ++ [⟨valid, .begun⟩] } : Accounts).next
        (.commit d.batches.length) = some { d with
          batches := (d.batches ++ [BatchCall.mk valid .begun]).set d.batches.length
            ⟨valid, .committed (valid.map Transaction.accountId).dedup⟩
          transactions := insertAbsent Transaction.transactionId d.transactions valid } := by
      simp only [Accounts.next, hbegun, Accounts.setBatch]
    refine ⟨_, Relation.ReflTransGen.tail (.single ⟨.batch valid, trivial, rfl⟩)
      ⟨.commit d.batches.length, trivial, hnext⟩, ?_, h.cache, h.length, h.reads⟩
    show insertAbsent Transaction.transactionId d.transactions valid = _
    rw [h.transactions]
    rfl
  | del a =>
    refine ⟨_, .single ⟨.expire a, trivial, rfl⟩, h.transactions, fun a' s hs => ?_, h.length,
      h.reads⟩
    obtain ⟨hne, hs⟩ := get_del hs
    exact (SummaryCache.get_invalidate_of_ne hne).trans (h.cache a' s hs)
  | tick ms =>
    exact ⟨d, .refl, h.transactions, fun a s hs => h.cache a s (get_later hs), h.length, h.reads⟩

/-- One event. -/
theorem Shows.next (httl : ttl ≠ 0) (h : Shows c d) (hC : Answered c e)
    (hn : (summaries ttl).next c e = some c') :
    ∃ d', Accounts.Reaches (fun _ _ => True) d d' ∧ Shows c' d' := by
  rcases System.next_cases hn with ⟨i, f, t, o, rest, rfl, hi, rfl⟩ | ⟨i, t, o, rest, rfl, hi, rfl⟩ |
    ⟨x, w, rfl, hx, rfl⟩ | ⟨x, w, t, p, rfl, hx, rfl⟩
  · exact h.run httl hi hC
  · exact ⟨d, .refl, h.stop hi .crashed⟩
  · have hw : x.apply c.world = (w, none) := Option.some.inj hx
    have hshows := h.outside (x := x) (by rw [hw])
    rwa [hw] at hshows
  · have hw : x.apply c.world = (w, some (t, p)) := Option.some.inj hx
    cases x with
    | request a =>
      cases hw
      exact ⟨_, .single ⟨.request a, trivial, rfl⟩, h.request a⟩
    | commit valid => cases hw
    | del a => cases hw
    | tick ms => cases hw

/-- Every run of the programs in which Redis answers is one of the phases: the calls stand in these
phases, they have returned the same summaries, and the table is the same. -/
theorem summaries_refine_phases (ttl clock : ℕ) (httl : ttl ≠ 0) (T : List Transaction)
    (hc : (summaries ttl).Reaches Answered (start clock T) c) :
    ∃ d, Accounts.Reaches (fun _ _ => True) (Accounts.start T) d ∧ Shows c d := by
  induction hc with
  | refl =>
    refine ⟨_, .refl, rfl, fun a s hs => ?_, rfl, fun i t p hi => ?_⟩
    · cases hs
    · cases hi
  | tail _ hC hn ih =>
    obtain ⟨d, hd, hshows⟩ := ih
    obtain ⟨d', hd', hshows'⟩ := hshows.next httl hC hn
    exact ⟨d', hd.trans hd', hshows'⟩

end Staleness

end TransactionPlatform
