import Mathlib.Data.List.Dedup
import TransactionPlatform.Accounts.SummaryCache
import TransactionPlatform.Worker.Atomicity

/-!
# Is a summary ever stale?

A reader may run its query before a batch commits and its `SET` after the batch has deleted the key;
the summary it leaves in the cache then lacks the batch, and every later reader gets it.
`stale_summary_cached` is such a run.

`summary_includes_batch` says that nothing else goes wrong.  It is about the readers of one account
and one batch, which may or may not have transactions of the account.  If it has none, its return
promises something about the other batches as well: the cached summary is one of a table that has
the batch only if no other batch of the account was between its commit and its `DEL` at that time.
-/

namespace TransactionPlatform

open KeyedTable Interleaved

namespace BatchCall

variable {b b' b'' : BatchCall} {a : String} {T T' : List Transaction}

theorem Included.mono (h : b.Included T) (hT : T <+: T') : b.Included T' :=
  fun x hx => (h x hx).mono hT

/-- A committed batch of the account has deleted the key or still has to. -/
theorem Committed.deleted_or_waiting (h : b.Committed) (ha : a ∈ b.accounts) :
    b.Deleted a ∨ b.Waiting a := by
  obtain ⟨pending, hb⟩ := h
  by_cases hp : a ∈ pending
  · exact .inr ⟨pending, hb, hp⟩
  · exact .inl ⟨ha, pending, hb, hp⟩

theorem Returned.deleted (h : b.Returned) (ha : a ∈ b.accounts) : b.Deleted a :=
  ⟨ha, [], h, List.not_mem_nil⟩

theorem Returned.committed (h : b.Returned) : b.Committed := ⟨[], h⟩

/-- `b'` is the same call some steps later. -/
structure Later (b b' : BatchCall) : Prop where
  valid : b'.valid = b.valid
  committed : b.Committed → b'.Committed
  deleted : ∀ a, b.Deleted a → b'.Deleted a
  returned : b.Returned → b' = b

theorem Later.refl (b : BatchCall) : Later b b := ⟨rfl, id, fun _ => id, fun _ => rfl⟩

end BatchCall

namespace Accounts

variable {c d : Accounts} {e : AccountEvent} {a : String} {i : ℕ} {b : BatchCall}

/-! ### What one step does -/

/-- A step of a reader or an expiry leaves the batches and the table alone; otherwise a batch
begins, commits or deletes a key. -/
theorem Step.batch_cases (h : Step c e d) :
    ((∀ i a, e ≠ .del i a) ∧ d.batches = c.batches ∧ d.transactions = c.transactions) ∨
    (∃ valid, e = .batch valid ∧ d.batches = c.batches ++ [⟨valid, .begun⟩] ∧
      d.transactions = c.transactions) ∨
    (∃ i valid, e = .commit i ∧ c.batches[i]? = some ⟨valid, .begun⟩ ∧
      d.batches = c.batches.set i
        ⟨valid, .committed (valid.map Transaction.accountId).dedup⟩ ∧
      d.transactions = insertAbsent Transaction.transactionId c.transactions valid) ∨
    ∃ i a valid pending, e = .del i a ∧ c.batches[i]? = some ⟨valid, .committed pending⟩ ∧
      a ∈ pending ∧ d.batches = c.batches.set i ⟨valid, .committed (pending.erase a)⟩ ∧
      d.transactions = c.transactions := by
  cases h with
  | request a => exact .inl ⟨nofun, rfl, rfl⟩
  | get hi => exact .inl ⟨nofun, rfl, rfl⟩
  | query hi => exact .inl ⟨nofun, rfl, rfl⟩
  | set hi => exact .inl ⟨nofun, rfl, rfl⟩
  | batch valid => exact .inr (.inl ⟨valid, rfl, rfl, rfl⟩)
  | commit hi => exact .inr (.inr (.inl ⟨_, _, rfl, hi, rfl, rfl⟩))
  | del hi ha => exact .inr (.inr (.inr ⟨_, _, _, _, rfl, hi, ha, rfl, rfl⟩))
  | expire a => exact .inl ⟨nofun, rfl, rfl⟩

/-- A batch after one step. -/
theorem Step.later (h : Step c e d) (hi : c.batches[i]? = some b) :
    ∃ b', d.batches[i]? = some b' ∧ b.Later b' := by
  have hlt : i < c.batches.length := (List.getElem?_eq_some_iff.mp hi).1
  rcases h.batch_cases with ⟨-, hb, -⟩ | ⟨valid, -, hb, -⟩ | ⟨j, valid, -, hj, hb, -⟩ |
    ⟨j, a, valid, pending, -, hj, ha, hb, -⟩
  · exact ⟨b, by rw [hb, hi], .refl b⟩
  · exact ⟨b, by rw [hb, List.getElem?_append_left hlt, hi], .refl b⟩
  · by_cases hij : j = i
    · subst hij
      cases hi.symm.trans hj
      have hself := (congrArg (·[j]?) hb).trans (List.getElem?_set_self hlt)
      refine ⟨_, hself, rfl, fun _ => ⟨_, rfl⟩, ?_, nofun⟩
      rintro a ⟨-, pending, hphase, -⟩
      cases hphase
    · exact ⟨b, by rw [hb, List.getElem?_set_ne hij, hi], .refl b⟩
  · by_cases hij : j = i
    · subst hij
      cases hi.symm.trans hj
      have hself := (congrArg (·[j]?) hb).trans (List.getElem?_set_self hlt)
      refine ⟨_, hself, rfl, fun _ => ⟨_, rfl⟩, ?_, ?_⟩
      · rintro a' ⟨hacc, pending', hphase, ha'⟩
        cases hphase
        exact ⟨hacc, _, rfl, fun hmem => ha' (List.mem_of_mem_erase hmem)⟩
      · intro hret
        cases hret
        cases ha
    · exact ⟨b, by rw [hb, List.getElem?_set_ne hij, hi], .refl b⟩

/-- The same for a batch of the list. -/
theorem Step.mem_later (h : Step c e d) (hb : b ∈ c.batches) : ∃ b' ∈ d.batches, b.Later b' := by
  obtain ⟨i, hi⟩ := List.mem_iff_getElem?.mp hb
  obtain ⟨b', hi', hlater⟩ := h.later hi
  exact ⟨b', List.mem_of_getElem? hi', hlater⟩

/-- The key of an account is deleted by a `DEL` of the account only. -/
theorem Step.deleted_before (h : Step c e d) (he : ∀ i, e ≠ .del i a)
    (hi : d.batches[i]? = some b) (hdel : b.Deleted a) :
    ∃ b', c.batches[i]? = some b' ∧ b'.Deleted a ∧ b'.valid = b.valid := by
  obtain ⟨hacc, pending, hphase, ha⟩ := hdel
  have hold : c.batches[i]? = some b →
      ∃ b', c.batches[i]? = some b' ∧ b'.Deleted a ∧ b'.valid = b.valid :=
    fun hb => ⟨b, hb, ⟨hacc, pending, hphase, ha⟩, rfl⟩
  rcases h.batch_cases with ⟨-, hd, -⟩ | ⟨valid, -, hd, -⟩ | ⟨j, valid, -, hj, hd, -⟩ |
    ⟨j, a', valid, pending', rfl, hj, ha', hd, -⟩
  · exact hold (hd ▸ hi)
  · rcases getElem?_concat_eq_some (hd ▸ hi) with ⟨-, rfl⟩ | ⟨-, hi⟩
    · cases hphase
    · exact hold hi
  · rcases getElem?_set_eq_some (hd ▸ hi) with ⟨rfl, rfl⟩ | ⟨-, hi⟩
    · cases hphase
      exact absurd hacc ha
    · exact hold hi
  · rcases getElem?_set_eq_some (hd ▸ hi) with ⟨rfl, rfl⟩ | ⟨-, hi⟩
    · cases hphase
      have hne : a ≠ a' := fun h' => he _ (by rw [h'])
      refine ⟨_, hj, ⟨hacc, pending', rfl, fun hmem => ha ?_⟩, rfl⟩
      exact (List.mem_erase_of_ne hne).mpr hmem
    · exact hold hi

/-- A batch that has committed had committed before, or does so in this step. -/
theorem Step.committed_before (h : Step c e d) (hi : d.batches[i]? = some b)
    (hcommit : b.Committed) :
    (∃ b', c.batches[i]? = some b' ∧ b'.Committed ∧ b'.valid = b.valid) ∨
      (e = .commit i ∧
        d.transactions = insertAbsent Transaction.transactionId c.transactions b.valid) := by
  obtain ⟨pending, hphase⟩ := hcommit
  have hold : c.batches[i]? = some b →
      ∃ b', c.batches[i]? = some b' ∧ b'.Committed ∧ b'.valid = b.valid :=
    fun hb => ⟨b, hb, ⟨pending, hphase⟩, rfl⟩
  rcases h.batch_cases with ⟨-, hd, -⟩ | ⟨valid, -, hd, -⟩ | ⟨j, valid, he, hj, hd, htable⟩ |
    ⟨j, a', valid, pending', -, hj, ha', hd, -⟩
  · exact .inl (hold (hd ▸ hi))
  · rcases getElem?_concat_eq_some (hd ▸ hi) with ⟨-, rfl⟩ | ⟨-, hi⟩
    · cases hphase
    · exact .inl (hold hi)
  · rcases getElem?_set_eq_some (hd ▸ hi) with ⟨rfl, rfl⟩ | ⟨-, hi⟩
    · exact .inr ⟨he, htable⟩
    · exact .inl (hold hi)
  · rcases getElem?_set_eq_some (hd ▸ hi) with ⟨rfl, rfl⟩ | ⟨-, hi⟩
    · exact .inl ⟨_, hj, ⟨_, rfl⟩, rfl⟩
    · exact .inl (hold hi)

/-- Only a commit changes the table. -/
theorem Step.table_cases (h : Step c e d) :
    d.transactions = c.transactions ∨
      ∃ i b, e = .commit i ∧ d.batches[i]? = some b ∧ b.Committed ∧
        d.transactions = insertAbsent Transaction.transactionId c.transactions b.valid := by
  rcases h.batch_cases with ⟨-, -, hd⟩ | ⟨valid, -, -, hd⟩ | ⟨i, valid, he, hi, hb, hd⟩ |
    ⟨i, a, valid, pending, -, -, -, -, hd⟩
  · exact .inl hd
  · exact .inl hd
  · have hlt : i < c.batches.length := (List.getElem?_eq_some_iff.mp hi).1
    exact .inr ⟨i, _, he, by rw [hb, List.getElem?_set_self hlt], ⟨_, rfl⟩, hd⟩
  · exact .inl hd

/-- Transactions are only appended. -/
theorem Step.prefix_transactions (h : Step c e d) : c.transactions <+: d.transactions := by
  rcases h.table_cases with heq | ⟨i, b, -, -, -, heq⟩
  · exact ⟨[], by rw [List.append_nil, heq]⟩
  · rw [heq]
    exact prefix_insertAbsent _ _

/-- What a reader of the account finds was cached before, or is what a reader has just set. -/
theorem Step.cached_before {s : AccountSummary} (h : Step c e d) (hs : d.cache.get a = some s) :
    (∀ i, e ≠ .del i a) ∧ (c.cache.get a = some s ∨
      ∃ j seen, e = .set j ∧ c.reads[j]? = some ⟨a, .computed seen⟩ ∧ s = summaryOf seen a) := by
  have hinvalid : ∀ a', (c.cache.invalidate a').get a = some s →
      a ≠ a' ∧ c.cache.get a = some s := by
    intro a' hget
    have hne : a ≠ a' := by
      rintro rfl
      rw [SummaryCache.get_invalidate_self] at hget
      cases hget
    exact ⟨hne, SummaryCache.get_invalidate_of_ne hne ▸ hget⟩
  cases h with
  | request a' => exact ⟨nofun, .inl hs⟩
  | get hi => exact ⟨nofun, .inl hs⟩
  | query hi => exact ⟨nofun, .inl hs⟩
  | @set j a' seen hi =>
    refine ⟨nofun, ?_⟩
    by_cases ha : a = a'
    · subst ha
      have hsum : some (summaryOf seen a) = some s := SummaryCache.get_set_self.symm.trans hs
      exact .inr ⟨j, seen, rfl, hi, (Option.some.inj hsum).symm⟩
    · exact .inl (SummaryCache.get_set_of_ne ha ▸ hs)
  | batch valid => exact ⟨nofun, .inl hs⟩
  | commit hi => exact ⟨nofun, .inl hs⟩
  | @del j a' valid pending hi ha =>
    obtain ⟨hne, hget⟩ := hinvalid a' hs
    refine ⟨fun i hi => ?_, .inl hget⟩
    cases hi
    exact hne rfl
  | expire a' => exact ⟨nofun, .inl (hinvalid a' hs).2⟩

/-- Where a reader stood before the step. -/
theorem Step.read_before {j : ℕ} {phase : ReadPhase} (h : Step c e d)
    (hj : d.reads[j]? = some ⟨a, phase⟩) :
    c.reads[j]? = some ⟨a, phase⟩ ∨ phase = .begun ∨
    (c.reads[j]? = some ⟨a, .begun⟩ ∧ phase = afterGet (c.cache.get a)) ∨
    (c.reads[j]? = some ⟨a, .missed⟩ ∧ phase = .computed c.transactions) ∨
    ∃ seen, c.reads[j]? = some ⟨a, .computed seen⟩ ∧ phase = .returned (summaryOf seen a) := by
  cases h with
  | request a' =>
    rcases getElem?_concat_eq_some hj with ⟨-, heq⟩ | ⟨-, hj⟩
    · cases heq
      exact .inr (.inl rfl)
    · exact .inl hj
  | get hi =>
    rcases getElem?_set_eq_some hj with ⟨rfl, heq⟩ | ⟨-, hj⟩
    · cases heq
      exact .inr (.inr (.inl ⟨hi, rfl⟩))
    · exact .inl hj
  | query hi =>
    rcases getElem?_set_eq_some hj with ⟨rfl, heq⟩ | ⟨-, hj⟩
    · cases heq
      exact .inr (.inr (.inr (.inl ⟨hi, rfl⟩)))
    · exact .inl hj
  | set hi =>
    rcases getElem?_set_eq_some hj with ⟨rfl, heq⟩ | ⟨-, hj⟩
    · cases heq
      exact .inr (.inr (.inr (.inr ⟨_, hi, rfl⟩)))
    · exact .inl hj
  | batch valid => exact .inl hj
  | commit hi => exact .inl hj
  | del hi ha => exact .inl hj
  | expire a' => exact .inl hj

/-! ### What holds in every state -/

/-- The table has the `i`-th batch, or all batches that have deleted the key of the account.  If the
`i`-th batch has transactions of the account, then no other batch counts. -/
def Covers (a : String) (i : ℕ) (accounts : List String) (c : Accounts) (T : List Transaction) :
    Prop :=
  (∃ b, c.batches[i]? = some b ∧ b.Included T) ∨
    ∀ k b, c.batches[k]? = some b → (a ∈ accounts → k = i) → b.Deleted a → b.Included T

/-- The condition on the events of a run, for an account and for the `i`-th batch, which has
transactions of `accounts`.

If the account is one of them, a reader does not set the cache behind the `DEL` of the batch unless
its query has seen the batch.  If it is not, the same holds of the other batches, unless the query
has seen the `i`-th one, and none of them is between its commit and its `DEL` of the account while
the `i`-th batch commits. -/
def Undisturbed (a : String) (i : ℕ) (accounts : List String) (c : Accounts) : AccountEvent → Prop
  | .set j => ∀ seen, c.reads[j]? = some ⟨a, .computed seen⟩ → Covers a i accounts c seen
  | .commit k => k = i → a ∉ accounts → ∀ b ∈ c.batches, ¬ b.Waiting a
  | _ => True

/-- The table was committed at some time of the run. -/
def WasCommitted (T₀ : List Transaction) (a : String) (i : ℕ) (accounts : List String)
    (c : Accounts) (T : List Transaction) : Prop :=
  ∃ e, Reaches (Undisturbed a i accounts) (start T₀) e ∧
    Reaches (Undisturbed a i accounts) e c ∧ e.transactions = T

/-- The invariant of the run. -/
structure Consistent (T₀ : List Transaction) (a : String) (i : ℕ) (accounts : List String)
    (c : Accounts) : Prop where
  reached : Reaches (Undisturbed a i accounts) (start T₀) c
  nodup : (c.transactions.map Transaction.transactionId).Nodup
  /-- Every transaction was there at the start or comes from a committed batch. -/
  origin : ∀ x ∈ c.transactions, x ∈ T₀ ∨ ∃ b ∈ c.batches, b.Committed ∧ x ∈ b.valid
  included : ∀ b ∈ c.batches, b.Committed → b.Included c.transactions
  /-- A cached summary has the batches that count. -/
  cached : ∀ s, c.cache.get a = some s → ∃ T, WasCommitted T₀ a i accounts c T ∧
    s = summaryOf T a ∧ Covers a i accounts c T
  computed : ∀ (j : ℕ) (seen : List Transaction), c.reads[j]? = some ⟨a, .computed seen⟩ →
    WasCommitted T₀ a i accounts c seen
  /-- When the batch committed without a transaction of the account, every other batch of the
  account that had committed had deleted the key. -/
  settled : ∀ b, c.batches[i]? = some b → b.Committed → b.accounts = accounts → a ∉ accounts →
    ∃ T, WasCommitted T₀ a i accounts c T ∧ b.Included T ∧ ∀ x ∈ T, x.accountId = a →
      x ∈ T₀ ∨ ∃ b' ∈ c.batches, b'.Deleted a ∧ x ∈ b'.valid

section Invariant

variable {T₀ T : List Transaction} {accounts : List String}

/-- Along a run transactions are only appended. -/
theorem Reaches.prefix_transactions {C : Accounts → AccountEvent → Prop} (h : Reaches C c d) :
    c.transactions <+: d.transactions := by
  induction h with
  | refl => exact List.prefix_rfl
  | tail _ hnext ih =>
    obtain ⟨e, -, hn⟩ := hnext
    exact ih.trans (Step.of_next hn).prefix_transactions

theorem Reaches.tail {C : Accounts → AccountEvent → Prop} {c' : Accounts} (h : Reaches C c c')
    (hC : C c' e) (hn : c'.next e = some d) : Reaches C c d :=
  Relation.ReflTransGen.tail h ⟨e, hC, hn⟩

theorem WasCommitted.tail (h : WasCommitted T₀ a i accounts c T)
    (hC : Undisturbed a i accounts c e) (hn : c.next e = some d) :
    WasCommitted T₀ a i accounts d T := by
  obtain ⟨m, hm, hmc, hT⟩ := h
  exact ⟨m, hm, hmc.tail hC hn, hT⟩

theorem Consistent.wasCommitted (h : Consistent T₀ a i accounts c) :
    WasCommitted T₀ a i accounts c c.transactions :=
  ⟨c, h.reached, .refl, rfl⟩

/-- A committed table lies between the first and the present one. -/
theorem WasCommitted.between (h : WasCommitted T₀ a i accounts c T) :
    T₀ <+: T ∧ T <+: c.transactions := by
  obtain ⟨m, hm, hmc, rfl⟩ := h
  exact ⟨hm.prefix_transactions, hmc.prefix_transactions⟩

theorem consistent_start (h : (T₀.map Transaction.transactionId).Nodup) :
    Consistent T₀ a i accounts (start T₀) where
  reached := .refl
  nodup := h
  origin _ hx := .inl hx
  included _ hb := absurd hb List.not_mem_nil
  cached _ hs := by cases hs
  computed j _ hj := by cases hj
  settled _ hb := by cases hb

/-! One lemma for every part of the invariant. -/

theorem Consistent.nodup_next (h : Consistent T₀ a i accounts c) (hstep : Step c e d) :
    (d.transactions.map Transaction.transactionId).Nodup := by
  rcases hstep.table_cases with htable | ⟨j, b, -, -, -, htable⟩
  · rw [htable]
    exact h.nodup
  · rw [htable]
    exact nodup_insertAbsent h.nodup b.valid

theorem Consistent.origin_next (h : Consistent T₀ a i accounts c) (hstep : Step c e d) :
    ∀ x ∈ d.transactions, x ∈ T₀ ∨ ∃ b ∈ d.batches, b.Committed ∧ x ∈ b.valid := by
  intro x hx
  have hold : x ∈ c.transactions → x ∈ T₀ ∨ ∃ b ∈ d.batches, b.Committed ∧ x ∈ b.valid := by
    intro hx
    rcases h.origin x hx with hx | ⟨b, hb, hcommit, hx⟩
    · exact .inl hx
    · obtain ⟨b', hb', hlater⟩ := hstep.mem_later hb
      exact .inr ⟨b', hb', hlater.committed hcommit, hlater.valid ▸ hx⟩
  rcases hstep.table_cases with htable | ⟨j, b, -, hj, hcommit, htable⟩
  · exact hold (htable ▸ hx)
  · rcases mem_insertAbsent (htable ▸ hx) with hx | hx
    · exact hold hx
    · exact .inr ⟨b, List.mem_of_getElem? hj, hcommit, hx⟩

theorem Consistent.included_next (h : Consistent T₀ a i accounts c) (hstep : Step c e d) :
    ∀ b ∈ d.batches, b.Committed → b.Included d.transactions := by
  intro b hb hcommit
  obtain ⟨k, hk⟩ := List.mem_iff_getElem?.mp hb
  rcases hstep.committed_before hk hcommit with ⟨b', hb', hcommit', hvalid⟩ | ⟨-, htable⟩
  · have hold : b'.Included d.transactions :=
      (h.included b' (List.mem_of_getElem? hb') hcommit').mono hstep.prefix_transactions
    rwa [BatchCall.Included, hvalid] at hold
  · intro x hx
    rw [htable]
    exact hasKey_insertAbsent hx

/-- As long as no key of the account is deleted, a table covers the batches that it covered. -/
theorem Covers.next (h : Covers a i accounts c T) (hstep : Step c e d) (he : ∀ k, e ≠ .del k a) :
    Covers a i accounts d T := by
  rcases h with ⟨b, hi, hinc⟩ | hinc
  · obtain ⟨b', hi', hlater⟩ := hstep.later hi
    refine .inl ⟨b', hi', ?_⟩
    rwa [BatchCall.Included, hlater.valid]
  · refine .inr fun k b hk hown hdel => ?_
    obtain ⟨b', hk', hdel', hvalid⟩ := hstep.deleted_before he hk hdel
    have hinc' := hinc k b' hk' hown hdel'
    rwa [BatchCall.Included, hvalid] at hinc'

theorem Consistent.cached_next (h : Consistent T₀ a i accounts c)
    (hC : Undisturbed a i accounts c e) (hn : c.next e = some d) {s : AccountSummary}
    (hs : d.cache.get a = some s) :
    ∃ T, WasCommitted T₀ a i accounts d T ∧ s = summaryOf T a ∧ Covers a i accounts d T := by
  have hstep := Step.of_next hn
  obtain ⟨hdel, hbefore⟩ := hstep.cached_before hs
  rcases hbefore with hs | ⟨j, seen, rfl, hj, rfl⟩
  · obtain ⟨T, hT, hsum, hcov⟩ := h.cached s hs
    exact ⟨T, hT.tail hC hn, hsum, hcov.next hstep hdel⟩
  · exact ⟨seen, (h.computed j seen hj).tail hC hn, rfl, (hC seen hj).next hstep hdel⟩

theorem Consistent.computed_next (h : Consistent T₀ a i accounts c)
    (hC : Undisturbed a i accounts c e) (hn : c.next e = some d) {j : ℕ} {seen : List Transaction}
    (hj : d.reads[j]? = some ⟨a, .computed seen⟩) : WasCommitted T₀ a i accounts d seen := by
  rcases (Step.of_next hn).read_before hj with hj | hbegun | ⟨-, hget⟩ | ⟨-, hquery⟩ | ⟨_, -, hset⟩
  · exact (h.computed j seen hj).tail hC hn
  · cases hbegun
  · cases hs : c.cache.get a with
    | some s => rw [hs] at hget; cases hget
    | none => rw [hs] at hget; cases hget
  · cases hquery
    exact h.wasCommitted.tail hC hn
  · cases hset

/-- The transactions of the account at the commit of a batch that has none of them. -/
theorem Consistent.settled_commit (h : Consistent T₀ a i accounts c)
    (hC : Undisturbed a i accounts c (.commit i)) (hstep : Step c (.commit i) d)
    (hd : d.batches[i]? = some b) (hacc : b.accounts = accounts) (ha : a ∉ accounts) :
    ∀ x ∈ d.transactions, x.accountId = a →
      x ∈ T₀ ∨ ∃ b' ∈ d.batches, b'.Deleted a ∧ x ∈ b'.valid := by
  have hmem : ∀ b' : BatchCall, ∀ x ∈ b'.valid, x.accountId ∈ b'.accounts :=
    fun b' x hx => List.mem_dedup.mpr (List.mem_map_of_mem hx)
  intro x hx hxa
  have hxc : x ∈ c.transactions := by
    rcases hstep.table_cases with htable | ⟨j, b', heq, hj, -, htable⟩
    · exact htable ▸ hx
    · cases heq
      cases hd.symm.trans hj
      rcases mem_insertAbsent (htable ▸ hx) with hx | hx
      · exact hx
      · exact absurd (hacc ▸ hxa ▸ hmem b x hx) ha
  rcases h.origin x hxc with hx | ⟨b', hb', hcommit, hx⟩
  · exact .inl hx
  · have hdeleted : b'.Deleted a :=
      (hcommit.deleted_or_waiting (hxa ▸ hmem b' x hx)).resolve_right (hC rfl ha b' hb')
    obtain ⟨b'', hb'', hlater⟩ := hstep.mem_later hb'
    exact .inr ⟨b'', hb'', hlater.deleted a hdeleted, hlater.valid ▸ hx⟩

theorem Consistent.settled_next (h : Consistent T₀ a i accounts c)
    (hC : Undisturbed a i accounts c e) (hn : c.next e = some d) (hd : d.batches[i]? = some b)
    (hcommit : b.Committed) (hacc : b.accounts = accounts) (ha : a ∉ accounts) :
    ∃ T, WasCommitted T₀ a i accounts d T ∧ b.Included T ∧ ∀ x ∈ T, x.accountId = a →
      x ∈ T₀ ∨ ∃ b' ∈ d.batches, b'.Deleted a ∧ x ∈ b'.valid := by
  have hstep := Step.of_next hn
  rcases hstep.committed_before hd hcommit with ⟨b', hb', hcommit', hvalid⟩ | ⟨rfl, -⟩
  · have hacc' : b'.accounts = accounts := by rwa [BatchCall.accounts, hvalid]
    obtain ⟨T, hT, hinc, hrows⟩ := h.settled b' hb' hcommit' hacc' ha
    rw [BatchCall.Included, hvalid] at hinc
    refine ⟨T, hT.tail hC hn, hinc, fun x hx hxa => ?_⟩
    rcases hrows x hx hxa with hx | ⟨b'', hb'', hdeleted, hx⟩
    · exact .inl hx
    · obtain ⟨b₁, hb₁, hlater⟩ := hstep.mem_later hb''
      exact .inr ⟨b₁, hb₁, hlater.deleted a hdeleted, hlater.valid ▸ hx⟩
  · exact ⟨d.transactions, ⟨d, h.reached.tail hC hn, .refl, rfl⟩,
      h.included_next hstep b (List.mem_of_getElem? hd) hcommit,
      h.settled_commit hC hstep hd hacc ha⟩

/-- One event keeps the invariant. -/
theorem Consistent.next (h : Consistent T₀ a i accounts c) (hC : Undisturbed a i accounts c e)
    (hn : c.next e = some d) : Consistent T₀ a i accounts d where
  reached := h.reached.tail hC hn
  nodup := h.nodup_next (.of_next hn)
  origin := h.origin_next (.of_next hn)
  included := h.included_next (.of_next hn)
  cached _ := h.cached_next hC hn
  computed _ _ := h.computed_next hC hn
  settled _ := h.settled_next hC hn

/-! ### What a reader gets -/

/-- Two committed tables have the same transactions of the account if the smaller one has every
batch that those of the larger one come from. -/
theorem Consistent.accountRows_eq {T' : List Transaction} (h : Consistent T₀ a i accounts c)
    (hT : WasCommitted T₀ a i accounts c T) (hT' : WasCommitted T₀ a i accounts c T')
    (hle : T <+: T') (hinc : ∀ b ∈ c.batches, b.Deleted a → b.Included T)
    (hrows : ∀ x ∈ T', x.accountId = a → x ∈ T₀ ∨ ∃ b ∈ c.batches, b.Deleted a ∧ x ∈ b.valid) :
    accountRows T a = accountRows T' a := by
  obtain ⟨added, rfl⟩ := hle
  have hnodup : ((T ++ added).map Transaction.transactionId).Nodup :=
    h.nodup.sublist (hT'.between.2.sublist.map _)
  have hnone : ∀ x ∈ added, x.accountId ≠ a := by
    intro x hx hxa
    have hkey : HasKey Transaction.transactionId T x.transactionId := by
      rcases hrows x (List.mem_append_right _ hx) hxa with hx₀ | ⟨b, hb, hdeleted, hxb⟩
      · exact ⟨x, hT.between.1.subset hx₀, rfl⟩
      · exact hinc b hb hdeleted x hxb
    exact not_hasKey_of_nodup_append hnodup hx hkey
  have hempty : accountRows added a = [] :=
    List.filter_eq_nil_iff.mpr fun x hx => by simpa using hnone x hx
  unfold accountRows at hempty ⊢
  rw [List.filter_append, hempty, List.append_nil]

/-- Once the batch has returned, a cached summary is one of a committed table with the batch. -/
theorem Consistent.cached_included (h : Consistent T₀ a i accounts c) (hb : c.batches[i]? = some b)
    (hret : b.Returned) (hacc : b.accounts = accounts) {s : AccountSummary}
    (hs : c.cache.get a = some s) :
    ∃ T, WasCommitted T₀ a i accounts c T ∧ s = summaryOf T a ∧ b.Included T := by
  obtain ⟨T, hT, hsum, ⟨b', hb', hinc⟩ | hinc⟩ := h.cached s hs
  · cases hb.symm.trans hb'
    exact ⟨T, hT, hsum, hinc⟩
  · by_cases ha : a ∈ accounts
    · exact ⟨T, hT, hsum, hinc i b hb (fun _ => rfl) (hret.deleted (hacc ▸ ha))⟩
    · obtain ⟨T', hT', hinc', hrows⟩ := h.settled b hb hret.committed hacc ha
      rcases List.prefix_or_prefix_of_prefix hT.between.2 hT'.between.2 with hle | hle
      · have hall : ∀ b' ∈ c.batches, b'.Deleted a → b'.Included T := by
          intro b' hb' hdel
          obtain ⟨k, hk⟩ := List.mem_iff_getElem?.mp hb'
          exact hinc k b' hk (fun hmem => absurd hmem ha) hdel
        refine ⟨T', hT', ?_, hinc'⟩
        rw [hsum]
        exact summaryOf_congr (h.accountRows_eq hT hT' hle hall hrows)
      · exact ⟨T, hT, hsum, hinc'.mono hle⟩

/-- What a reader that began after the return of the batch has found so far. -/
def Sees (T₀ : List Transaction) (a : String) (i : ℕ) (accounts : List String) (b : BatchCall)
    (c : Accounts) : ReadPhase → Prop
  | .begun => True
  | .missed => True
  | .computed seen => b.Included seen
  | .returned s => ∃ T, WasCommitted T₀ a i accounts c T ∧ s = summaryOf T a ∧ b.Included T

/-- The invariant of the run since the `n`-th reader began. -/
structure Served (T₀ : List Transaction) (a : String) (i : ℕ) (accounts : List String)
    (b : BatchCall) (n : ℕ) (c : Accounts) : Prop where
  consistent : Consistent T₀ a i accounts c
  batch : c.batches[i]? = some b
  returned : b.Returned
  own : b.accounts = accounts
  read : ∀ phase, c.reads[n]? = some ⟨a, phase⟩ → Sees T₀ a i accounts b c phase

theorem Sees.tail {phase : ReadPhase} (h : Sees T₀ a i accounts b c phase)
    (hC : Undisturbed a i accounts c e) (hn : c.next e = some d) : Sees T₀ a i accounts b d phase := by
  cases phase with
  | begun => trivial
  | missed => trivial
  | computed seen => exact h
  | returned s =>
    obtain ⟨T, hT, hsum, hinc⟩ := h
    exact ⟨T, hT.tail hC hn, hsum, hinc⟩

/-- One event keeps the invariant. -/
theorem Served.next {n : ℕ} (h : Served T₀ a i accounts b n c)
    (hC : Undisturbed a i accounts c e) (hn : c.next e = some d) : Served T₀ a i accounts b n d := by
  have hstep := Step.of_next hn
  obtain ⟨b', hb', hlater⟩ := hstep.later h.batch
  cases hlater.returned h.returned
  refine ⟨h.consistent.next hC hn, hb', h.returned, h.own, fun phase hd => ?_⟩
  rcases hstep.read_before hd with hc | rfl | ⟨hc, rfl⟩ | ⟨hc, rfl⟩ | ⟨seen, hc, rfl⟩
  · exact (h.read phase hc).tail hC hn
  · trivial
  · refine Sees.tail ?_ hC hn
    cases hs : c.cache.get a with
    | none => trivial
    | some s => exact h.consistent.cached_included h.batch h.returned h.own hs
  · exact h.consistent.included b (List.mem_of_getElem? h.batch) h.returned.committed
  · refine Sees.tail ?_ hC hn
    exact ⟨seen, h.consistent.computed n seen hc, rfl, h.read _ hc⟩

end Invariant

/-- In every run that meets the condition, a reader of the account that begins after the batch has
returned gets the summary of a committed table that includes the batch. -/
theorem summary_includes_batch (T : List Transaction)
    (hT : (T.map Transaction.transactionId).Nodup) (a : String) (i : ℕ) (c d : Accounts)
    (b : BatchCall) (s : AccountSummary)
    (hc : Reaches (Undisturbed a i b.accounts) (start T) c) (hb : c.batches[i]? = some b)
    (hret : b.Returned) (hd : Reaches (Undisturbed a i b.accounts) (c.request a) d)
    (hs : d.reads[c.reads.length]? = some ⟨a, .returned s⟩) :
    ∃ e, Reaches (Undisturbed a i b.accounts) (start T) e ∧
      Reaches (Undisturbed a i b.accounts) e d ∧
      s = summaryOf e.transactions a ∧ b.Included e.transactions := by
  have hcons : Consistent T a i b.accounts c := by
    clear hb hd hs
    induction hc with
    | refl => exact consistent_start hT
    | tail _ hnext ih =>
      obtain ⟨e, hC, hn⟩ := hnext
      exact ih.next hC hn
  have hbegin : Served T a i b.accounts b c.reads.length (c.request a) := by
    have hC : Undisturbed a i b.accounts c (.request a) := trivial
    refine ⟨hcons.next hC rfl, hb, hret, rfl, fun phase hphase => ?_⟩
    rcases getElem?_concat_eq_some hphase with ⟨-, heq⟩ | ⟨hne, -⟩
    · cases heq
      trivial
    · exact absurd rfl hne
  have hserved : Served T a i b.accounts b c.reads.length d := by
    clear hs
    induction hd with
    | refl => exact hbegin
    | tail _ hnext ih =>
      obtain ⟨e, hC, hn⟩ := hnext
      exact ih.next hC hn
  obtain ⟨_, ⟨e, hce, hed, rfl⟩, hsum, hinc⟩ := hserved.read _ hs
  exact ⟨e, hce, hed, hsum, hinc⟩

/-- A batch, and then a reader. -/
def sampleCommitted : Accounts :=
  ⟨[sampleTransaction], [], [], [⟨[sampleTransaction], .committed []⟩]⟩

/-- The state after the reader has returned. -/
def sampleServed : Accounts :=
  ⟨[sampleTransaction], [(summaryKey "A1", summaryOf [sampleTransaction] "A1")],
    [⟨"A1", .returned (summaryOf [sampleTransaction] "A1")⟩],
    [⟨[sampleTransaction], .committed []⟩]⟩

theorem sample_summary_includes_batch :
    ∃ e, Reaches (Undisturbed "A1" 0 ["A1"]) (start []) e ∧
      Reaches (Undisturbed "A1" 0 ["A1"]) e sampleServed ∧
      summaryOf [sampleTransaction] "A1" = summaryOf e.transactions "A1" ∧
      (BatchCall.mk [sampleTransaction] (.committed [])).Included e.transactions := by
  have hc : Reaches (Undisturbed "A1" 0 ["A1"]) (start []) sampleCommitted := by
    refine ((Reaches.tail .refl (e := .batch [sampleTransaction]) trivial rfl).tail
      (e := .commit 0) ?_ rfl).tail (e := .del 0 "A1") trivial rfl
    intro _ hno
    exact absurd (by decide) hno
  have hd : Reaches (Undisturbed "A1" 0 ["A1"]) (sampleCommitted.request "A1") sampleServed := by
    refine ((Reaches.tail .refl (e := .get 0) trivial rfl).tail
      (e := .query 0) trivial rfl).tail (e := .set 0) ?_ rfl
    intro seen hseen
    cases hseen
    exact .inl ⟨_, rfl, fun x hx => ⟨x, hx, rfl⟩⟩
  exact summary_includes_batch [] List.nodup_nil "A1" 0 sampleCommitted sampleServed
    ⟨[sampleTransaction], .committed []⟩ _ hc rfl rfl hd rfl

/-- A reader queries before the batch commits and sets the cache after the batch has deleted the
key; the next reader gets a summary of a table without the batch. -/
theorem stale_summary_cached :
    ∃ (c d : Accounts) (b : BatchCall) (s : AccountSummary),
      (start []).runs [.request "A1", .get 0, .query 0, .batch [sampleTransaction], .commit 0,
        .del 0 "A1", .set 0] = some c ∧ c.batches[0]? = some b ∧ b.Returned ∧
      (c.request "A1").runs [.get 1] = some d ∧
      d.reads[c.reads.length]? = some ⟨"A1", .returned s⟩ ∧
      ∀ e, Reaches (fun _ _ => True) e d → s = summaryOf e.transactions "A1" →
        ¬ b.Included e.transactions := by
  refine ⟨⟨[sampleTransaction], [(summaryKey "A1", summaryOf [] "A1")],
      [⟨"A1", .returned (summaryOf [] "A1")⟩], [⟨[sampleTransaction], .committed []⟩]⟩,
    ⟨[sampleTransaction], [(summaryKey "A1", summaryOf [] "A1")],
      [⟨"A1", .returned (summaryOf [] "A1")⟩, ⟨"A1", .returned (summaryOf [] "A1")⟩],
      [⟨[sampleTransaction], .committed []⟩]⟩,
    ⟨[sampleTransaction], .committed []⟩, summaryOf [] "A1", by decide +kernel, rfl, rfl,
    by decide +kernel, rfl, fun e he hs hinc => ?_⟩
  obtain ⟨x, hx, -⟩ := hinc sampleTransaction List.mem_cons_self
  have hprefix : e.transactions <+: [sampleTransaction] := he.prefix_transactions
  have htable : e.transactions = [sampleTransaction] :=
    hprefix.eq_of_length_le (List.length_pos_of_mem hx)
  rw [htable] at hs
  exact absurd hs (by decide +kernel)

end Accounts

end TransactionPlatform
