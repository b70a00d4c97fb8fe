import Mathlib.Logic.Relation
import TransactionPlatform.Accounts.AccountSummary

/-!
# Summaries while batches commit

Any number of calls of `get_account_summary` and of `_commit_batch`, interleaved at their steps:
the `GET`, the aggregate query and the `SET` of a reader, the commit and the `DEL`s of a batch.
Postgres and Redis have no lock in common.  A call that raises or crashes is one that takes no
further step.

`commitBatch_follows` connects the steps of a batch to the worker: whatever the environment does,
`_commit_batch` of the worker goes through the phases described here.
-/

namespace TransactionPlatform

open Interleaved KeyedTable

/-! ### The cache -/

namespace SummaryCache

variable {cache : SummaryCache} {a a' : String} {s : AccountSummary}

theorem summaryKey_injective : Function.Injective summaryKey := by
  intro a a' h
  unfold summaryKey at h
  exact String.append_right_inj _ |>.mp h

/-- After the invalidation the key is gone. -/
theorem get_invalidate_self : (cache.invalidate a).get a = none := by
  unfold get invalidate
  rw [List.lookup_eq_none_iff]
  intro p hp
  have hne : p.1 ≠ summaryKey a := of_decide_eq_true (List.mem_filter.mp hp).2
  exact bne_iff_ne.mpr hne.symm

theorem get_invalidate_of_ne (h : a' ≠ a) : (cache.invalidate a).get a' = cache.get a' := by
  have hkey : summaryKey a' ≠ summaryKey a := fun hk => h (summaryKey_injective hk)
  unfold get invalidate
  induction cache with
  | nil => rfl
  | cons p cache ih =>
    obtain ⟨k, v⟩ := p
    by_cases hk : k = summaryKey a
    · have hother : (summaryKey a' == k) = false := beq_false_of_ne fun h' => hkey (h'.trans hk)
      rw [List.filter_cons_of_neg (by simpa using hk), ih, List.lookup_cons, hother]
    · rw [List.filter_cons_of_pos (by simpa using hk), List.lookup_cons, List.lookup_cons, ih]

theorem get_set_self : (cache.set a s).get a = some s := by
  unfold get set
  rw [List.lookup_cons_self]

theorem get_set_of_ne (h : a' ≠ a) : (cache.set a s).get a' = cache.get a' := by
  have hother : (summaryKey a' == summaryKey a) = false :=
    beq_false_of_ne fun hk => h (summaryKey_injective hk)
  calc (cache.set a s).get a' = (cache.invalidate a).get a' := by
        unfold get set
        rw [List.lookup_cons, hother]
    _ = cache.get a' := get_invalidate_of_ne h

end SummaryCache

/-! ### The calls -/

/-- Where a call of `get_account_summary` stands. -/
inductive ReadPhase where
  | begun
  /-- The `GET` found no key. -/
  | missed
  /-- The query has run on the table `seen`. -/
  | computed (seen : List Transaction)
  | returned (summary : AccountSummary)
  deriving DecidableEq

/-- A call of `get_account_summary`. -/
structure SummaryCall where
  accountId : String
  phase : ReadPhase
  deriving DecidableEq

/-- Where a call of `_commit_batch` stands. -/
inductive BatchPhase where
  | begun
  /-- The transaction has committed; the keys of the accounts `pending` are not deleted yet. -/
  | committed (pending : List String)
  deriving DecidableEq

/-- A call of `_commit_batch`.  The summaries depend on its transactions only. -/
structure BatchCall where
  valid : List Transaction
  phase : BatchPhase
  deriving DecidableEq

namespace BatchCall

/-- `affected_accounts`. -/
def accounts (b : BatchCall) : List String := (b.valid.map Transaction.accountId).dedup

/-- The transaction of the batch has committed. -/
def Committed (b : BatchCall) : Prop := ∃ pending, b.phase = .committed pending

/-- The call has returned. -/
def Returned (b : BatchCall) : Prop := b.phase = .committed []

/-- The batch has deleted the key of the account. -/
def Deleted (b : BatchCall) (a : String) : Prop :=
  a ∈ b.accounts ∧ ∃ pending, b.phase = .committed pending ∧ a ∉ pending

/-- The batch has committed and still has to delete the key of the account. -/
def Waiting (b : BatchCall) (a : String) : Prop :=
  ∃ pending, b.phase = .committed pending ∧ a ∈ pending

/-- The table has every transaction of the batch: it was inserted or its id was there already. -/
def Included (b : BatchCall) (T : List Transaction) : Prop :=
  ∀ x ∈ b.valid, HasKey Transaction.transactionId T x.transactionId

end BatchCall

/-! ### The interleaving -/

/-- The committed table, the cache and the calls. -/
structure Accounts where
  transactions : List Transaction
  cache : SummaryCache
  reads : List SummaryCall
  batches : List BatchCall
  deriving DecidableEq

/-- One step of one call, the begin of a call, or the expiry of a key. -/
inductive AccountEvent where
  | request (accountId : String)
  | get (i : ℕ)
  | query (i : ℕ)
  | set (i : ℕ)
  | batch (valid : List Transaction)
  | commit (i : ℕ)
  | del (i : ℕ) (accountId : String)
  | expire (accountId : String)
  deriving DecidableEq

namespace Accounts

/-- Nothing has been called or cached. -/
def start (T : List Transaction) : Accounts := ⟨T, [], [], []⟩

/-- A call of `get_account_summary` begins. -/
def request (c : Accounts) (a : String) : Accounts :=
  { c with reads := c.reads ++ [⟨a, .begun⟩] }

/-- The phase of the `i`-th reader changes. -/
def setRead (c : Accounts) (i : ℕ) (a : String) (phase : ReadPhase) : Accounts :=
  { c with reads := c.reads.set i ⟨a, phase⟩ }

/-- The phase of the `i`-th batch changes. -/
def setBatch (c : Accounts) (i : ℕ) (valid : List Transaction) (phase : BatchPhase) : Accounts :=
  { c with batches := c.batches.set i ⟨valid, phase⟩ }

/-- The phase of a reader after its `GET`. -/
def afterGet : Option AccountSummary → ReadPhase
  | some cached => .returned cached
  | none => .missed

/-- One event; `none` if the call is not at this step.  The order of the `DEL`s of a batch, a loop
over a set, is left open. -/
def next (c : Accounts) : AccountEvent → Option Accounts
  | .request a => some (c.request a)
  | .get i =>
    match c.reads[i]? with
    | some ⟨a, .begun⟩ => some (c.setRead i a (afterGet (c.cache.get a)))
    | _ => none
  | .query i =>
    match c.reads[i]? with
    | some ⟨a, .missed⟩ => some (c.setRead i a (.computed c.transactions))
    | _ => none
  | .set i =>
    match c.reads[i]? with
    | some ⟨a, .computed seen⟩ =>
      some { c.setRead i a (.returned (summaryOf seen a)) with
        cache := c.cache.set a (summaryOf seen a) }
    | _ => none
  | .batch valid => some { c with batches := c.batches ++ [⟨valid, .begun⟩] }
  | .commit i =>
    match c.batches[i]? with
    | some ⟨valid, .begun⟩ =>
      some { c.setBatch i valid (.committed (valid.map Transaction.accountId).dedup) with
        transactions := insertAbsent Transaction.transactionId c.transactions valid }
    | _ => none
  | .del i a =>
    match c.batches[i]? with
    | some ⟨valid, .committed pending⟩ =>
      if a ∈ pending then
        some { c.setBatch i valid (.committed (pending.erase a)) with
          cache := c.cache.invalidate a }
      else none
    | _ => none
  | .expire a => some { c with cache := c.cache.invalidate a }

/-- Everything an event can do. -/
inductive Step (c : Accounts) : AccountEvent → Accounts → Prop where
  | request (a : String) : Step c (.request a) (c.request a)
  | get {i : ℕ} {a : String} (hi : c.reads[i]? = some ⟨a, .begun⟩) :
      Step c (.get i) (c.setRead i a (afterGet (c.cache.get a)))
  | query {i : ℕ} {a : String} (hi : c.reads[i]? = some ⟨a, .missed⟩) :
      Step c (.query i) (c.setRead i a (.computed c.transactions))
  | set {i : ℕ} {a : String} {seen : List Transaction}
      (hi : c.reads[i]? = some ⟨a, .computed seen⟩) :
      Step c (.set i) { c.setRead i a (.returned (summaryOf seen a)) with
        cache := c.cache.set a (summaryOf seen a) }
  | batch (valid : List Transaction) :
      Step c (.batch valid) { c with batches := c.batches ++ [⟨valid, .begun⟩] }
  | commit {i : ℕ} {valid : List Transaction} (hi : c.batches[i]? = some ⟨valid, .begun⟩) :
      Step c (.commit i)
        { c.setBatch i valid (.committed (valid.map Transaction.accountId).dedup) with
          transactions := insertAbsent Transaction.transactionId c.transactions valid }
  | del {i : ℕ} {a : String} {valid : List Transaction} {pending : List String}
      (hi : c.batches[i]? = some ⟨valid, .committed pending⟩) (ha : a ∈ pending) :
      Step c (.del i a) { c.setBatch i valid (.committed (pending.erase a)) with
        cache := c.cache.invalidate a }
  | expire (a : String) : Step c (.expire a) { c with cache := c.cache.invalidate a }

theorem Step.of_next {c d : Accounts} {e : AccountEvent} (h : c.next e = some d) : Step c e d := by
  cases e with
  | request a =>
    cases h
    exact .request a
  | get i =>
    unfold next at h
    dsimp only at h
    split at h
    · next a hi =>
      cases h
      exact .get hi
    · cases h
  | query i =>
    unfold next at h
    dsimp only at h
    split at h
    · next a hi =>
      cases h
      exact .query hi
    · cases h
  | set i =>
    unfold next at h
    dsimp only at h
    split at h
    · next a seen hi =>
      cases h
      exact .set hi
    · cases h
  | batch valid =>
    cases h
    exact .batch valid
  | commit i =>
    unfold next at h
    dsimp only at h
    split at h
    · next valid hi =>
      cases h
      exact .commit hi
    · cases h
  | del i a =>
    unfold next at h
    dsimp only at h
    split at h
    · next valid pending hi =>
      split at h
      · next ha =>
        cases h
        exact .del hi ha
      · cases h
    · cases h
  | expire a =>
    cases h
    exact .expire a

/-- The state `d` is reached by events that all satisfy `C` where they happen. -/
def Reaches (C : Accounts → AccountEvent → Prop) : Accounts → Accounts → Prop :=
  Relation.ReflTransGen fun c d => ∃ e, C c e ∧ c.next e = some d

/-- The events one after the other. -/
def runs (c : Accounts) : List AccountEvent → Option Accounts
  | [] => some c
  | e :: es => (c.next e).bind fun d => d.runs es

/-- A reader that nobody disturbs returns what `get_account_summary` returns and leaves the cache it
leaves. -/
theorem read_alone (c : Accounts) (a : String) :
    ∃ es d, (c.request a).runs es = some d ∧ d.transactions = c.transactions ∧
      d.reads[c.reads.length]? =
        some ⟨a, .returned (getAccountSummary c.transactions c.cache a).1⟩ ∧
      d.cache = (getAccountSummary c.transactions c.cache a).2 := by
  have hset : ∀ x y : SummaryCall, (c.reads ++ [x]).set c.reads.length y = c.reads ++ [y] := by
    intro x y
    rw [List.set_append_right _ _ (Nat.le_refl _), Nat.sub_self, List.set_cons_zero]
  unfold getAccountSummary
  cases hget : c.cache.get a with
  | some cached =>
    refine ⟨[.get c.reads.length], { c with reads := c.reads ++ [⟨a, .returned cached⟩] }, ?_, rfl,
      List.getElem?_concat_length, rfl⟩
    simp [runs, next, request, setRead, hset, hget, afterGet]
  | none =>
    refine ⟨[.get c.reads.length, .query c.reads.length, .set c.reads.length],
      { c with
        reads := c.reads ++ [⟨a, .returned (summaryOf c.transactions a)⟩]
        cache := c.cache.set a (summaryOf c.transactions a) }, ?_, rfl,
      List.getElem?_concat_length, rfl⟩
    simp [runs, next, request, setRead, hset, hget, afterGet]

end Accounts

/-! ### `_commit_batch` of the worker -/

/-- The moves of a batch: the statements and a refused commit leave everything as it is. -/
inductive BatchMove (valid : List Transaction) :
    WorkerOp → Fault → World → BatchPhase → World → BatchPhase → Prop where
  | stay {o : WorkerOp} {f : Fault} {w : World} : BatchMove valid o f w .begun w .begun
  | commit {s : Session} {f : Fault} {w w' : World}
      (htransactions : w'.db.transactions =
        insertAbsent Transaction.transactionId w.db.transactions valid)
      (hcache : w'.cache = w.cache) :
      BatchMove valid (.commit s) f w .begun w'
        (.committed (valid.map Transaction.accountId).dedup)
  | del {a : String} {f : Fault} {w : World} {pending : List String} (ha : a ∈ pending)
      (hf : f = .ok ∨ f = .lost) :
      BatchMove valid (.delSummary a) f w (.committed pending)
        { w with cache := w.cache.filter fun p => p.1 ≠ summaryKey a }
        (.committed (pending.erase a))
  | unavailable {a : String} {f : Fault} {w : World} {pending : List String} (ha : a ∈ pending)
      (hf : f = .rejected ∨ f = .failed) :
      BatchMove valid (.delSummary a) f w (.committed pending) w (.committed (pending.erase a))

section Worker

variable {files : String → Option Csv} {valid : List Transaction}

/-- The batch follows its phases, and has deleted every key when it returns. -/
abbrev WorkerM.RunsBatch (files : String → Option Csv) (valid : List Transaction) (m : WorkerM Unit)
    (post : Except Exn Unit → Session → BatchPhase → Prop) (s : Session) (a : BatchPhase) : Prop :=
  Routine.Follows (WorkerOp.exec files) (BatchMove valid) post m s a

/-- What a batch leaves: a call that returns has deleted the keys. -/
def BatchDone : Except Exn Unit → Session → BatchPhase → Prop
  | .ok (), _, a => a = .committed []
  | .error _, _, _ => True

theorem runsBatch_invalidateSummaries {s : Session} (pending : List String) :
    (invalidateSummaries pending).RunsBatch files valid BatchDone s (.committed pending) := by
  induction pending with
  | nil => exact rfl
  | cons a pending ih =>
    refine Routine.Follows.bind fun f w => ⟨.committed pending, ?_, ih⟩
    have hmove : BatchMove valid (.delSummary a) f w (.committed (a :: pending))
        (WorkerOp.exec files (.delSummary a) f w).1 (.committed ((a :: pending).erase a)) := by
      cases f with
      | ok => exact .del List.mem_cons_self (.inl rfl)
      | rejected => exact .unavailable List.mem_cons_self (.inl rfl)
      | failed => exact .unavailable List.mem_cons_self (.inr rfl)
      | lost => exact .del List.mem_cons_self (.inr rfl)
    rwa [List.erase_cons_head] at hmove

theorem runsBatch_execute {stmt : Stmt} {s : Session}
    {post : Except Exn Unit → Session → BatchPhase → Prop}
    (hok : post (.ok ()) { s with work := s.work ++ [stmt] } .begun)
    (herr : ∀ e s', post (.error e) s' .begun) :
    (WorkerM.execute stmt).RunsBatch files valid post s .begun := by
  intro f w
  refine ⟨.begun, .stay, ?_⟩
  have hans : (WorkerOp.exec files (.execute stmt) f w).2 = stmt.outcome f := rfl
  rw [hans]
  rcases stmt.outcome_cases f with ⟨h, -⟩ | h | h
  · rw [h]
    exact hok
  · rw [h]
    exact herr _ _
  · rw [h]
    exact herr _ _

theorem runsBatch_commit {errors : List ImportError} {job : ImportJob} {n m upTo : ℕ}
    {post : Except Exn Unit → Session → BatchPhase → Prop}
    (hok : ∀ j, post (.ok ()) (.opened j) (.committed (valid.map Transaction.accountId).dedup))
    (herr : ∀ e s' a, post (.error e) s' a) :
    WorkerM.commit.RunsBatch files valid post
      ⟨job, job, inserts valid errors ++ [.advance n m upTo, .updateProgress], false⟩ .begun := by
  have htable : ∀ db, ((Session.mk job job (inserts valid errors ++
      [.advance n m upTo, .updateProgress]) false).commitDb db).transactions =
      insertAbsent Transaction.transactionId db.transactions valid := by
    intro db
    unfold Session.commitDb
    rw [Session.transaction_batch]
    rfl
  intro f w
  cases f with
  | ok => exact ⟨_, .commit (htable w.db) rfl, hok _⟩
  | rejected => exact ⟨_, .stay, herr _ _ _⟩
  | failed => exact ⟨_, .stay, herr _ _ _⟩
  | lost => exact ⟨_, .commit (htable w.db) rfl, herr _ _ _⟩

/-- `_commit_batch` of the worker follows the phases of a batch: it inserts its transactions in one
commit and then deletes the keys of its accounts. -/
theorem commitBatch_follows (files : String → Option Csv) (job : ImportJob)
    (valid : List Transaction) (errors : List ImportError) (upTo : ℕ) :
    (commitBatch valid errors upTo).RunsBatch files valid BatchDone (.opened job) .begun := by
  unfold commitBatch
  -- the insert of the transactions
  refine Routine.Follows.bind (Routine.Follows.mono
    (P := fun r s a =>
      match r with
      | .ok _ => s = ⟨job, job, inserts valid [], false⟩ ∧ a = .begun
      | .error _ => True) ?_ ?_)
  · cases valid with
    | nil => exact ⟨rfl, rfl⟩
    | cons v vs => exact runsBatch_execute ⟨rfl, rfl⟩ fun _ _ => trivial
  rintro (e | _) s a hr
  · exact trivial
  obtain ⟨rfl, rfl⟩ := hr
  -- the insert of the errors
  refine Routine.Follows.bind (Routine.Follows.mono
    (P := fun r s a =>
      match r with
      | .ok _ => s = ⟨job, job, inserts valid errors, false⟩ ∧ a = .begun
      | .error _ => True) ?_ ?_)
  · cases errors with
    | nil => exact ⟨rfl, rfl⟩
    | cons x xs =>
      refine runsBatch_execute ⟨?_, rfl⟩ fun _ _ => trivial
      simp [inserts]
  rintro (e | _) s a hr
  · exact trivial
  obtain ⟨rfl, rfl⟩ := hr
  -- the counters, the update of the job and the commit
  refine Routine.Follows.bind (Routine.follows_modify ?_)
  refine Routine.Follows.bind (runsBatch_execute ?_ fun _ _ => trivial)
  rw [List.append_assoc]
  refine Routine.Follows.bind (runsBatch_commit ?_ fun _ _ _ => trivial)
  exact fun j => runsBatch_invalidateSummaries _

end Worker

end TransactionPlatform
