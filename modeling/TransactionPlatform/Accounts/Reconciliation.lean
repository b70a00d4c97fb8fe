import TransactionPlatform.Accounts.Balance
import TransactionPlatform.Listing.TransactionService

/-!
# The summary of an account against its transactions

`get_account_summary` lets Postgres add up all rows of an account in one query, with a 0 for each row
of the other type; `list_transactions` hands out the same rows page by page.  A client that adds up
what it has been listed gets the summary, down to the texts of the numbers: `statementOf` is this
computation.
-/

namespace TransactionPlatform

open Paging

/-! ### Sums over one type -/

namespace Numeric

/-- A 0 without decimal places changes no sum. -/
@[simp] theorem add_zero (x : Numeric) : x.add (number 0 0) = x := by
  cases x <;> simp [add]

end Numeric

/-- `case((Transaction.type == type, Transaction.amount), else_=0)` adds up the rows of the type. -/
theorem coalesceSum_amountIf (type : TransactionType) (rows : List Transaction) :
    Numeric.coalesceSum (rows.map (amountIf type)) =
      Numeric.coalesceSum ((rows.filter fun t => decide (t.type = type)).map fun t =>
        Numeric.column t.amount) := by
  rw [Numeric.coalesceSum_eq_foldl, Numeric.coalesceSum_eq_foldl]
  generalize Numeric.number 0 0 = sum
  induction rows generalizing sum with
  | nil => rfl
  | cons t rows ih =>
    by_cases htype : t.type = type
    · simp [amountIf, htype, ih]
    · simp [amountIf, htype, ih]

/-! ### A statement from listed items -/

/-- The sum of the amounts of one type. -/
def listedTotal (type : TransactionType) (items : List TransactionOut) : Numeric :=
  .coalesceSum ((items.filter fun x => decide (x.type = type)).map fun x => .column x.amount)

/-- The summary that a client computes from the items of a listing. -/
def statementOf (items : List TransactionOut) (accountId : String) : AccountSummary :=
  (AggregateRow.mk (listedTotal .CREDIT items) (listedTotal .DEBIT items) items.length).summary
    accountId

theorem listedTotal_perm {items items' : List TransactionOut} (h : items.Perm items')
    (type : TransactionType) : listedTotal type items = listedTotal type items' :=
  Numeric.coalesceSum_perm ((h.filter _).map _)

theorem statementOf_perm {items items' : List TransactionOut} (h : items.Perm items')
    (accountId : String) : statementOf items accountId = statementOf items' accountId := by
  unfold statementOf
  rw [listedTotal_perm h, listedTotal_perm h, h.length_eq]

theorem listedTotal_out (type : TransactionType) (rows : List Transaction) :
    listedTotal type (rows.map Transaction.out) =
      Numeric.coalesceSum (rows.map (amountIf type)) := by
  rw [coalesceSum_amountIf, listedTotal, List.filter_map, List.map_map]
  rfl

/-- The statement from all items of an account is its summary. -/
theorem statementOf_out (T : List Transaction) (accountId : String) :
    statementOf ((accountRows T accountId).map Transaction.out) accountId =
      summaryOf T accountId := by
  unfold statementOf
  rw [listedTotal_out, listedTotal_out, List.length_map]
  rfl

/-! ### The two endpoints -/

/-- The filters of a listing of one account. -/
def Filters.ofAccount (accountId : String) : Filters := ⟨some accountId, none, none, none, none⟩

/-- A listing of one account selects the rows that the aggregate query adds up. -/
theorem selectWhere_ofAccount (localOffset : Datetime → ℤ) (T : List Transaction)
    {accountId : String} (hne : accountId ≠ "") :
    selectWhere localOffset T (Filters.ofAccount accountId).statements.stmt =
      accountRows T accountId := by
  have htruthy : truthy (some accountId) = some accountId := mem_truthy.mpr ⟨rfl, hne⟩
  have hstmt : (Filters.ofAccount accountId).statements.stmt = [.accountId accountId] := by
    have hnone : truthy none = none := rfl
    simp [Filters.ofAccount, Filters.statements, htruthy, hnone, Statements.restrict]
  rw [hstmt, selectWhere, accountRows]
  simp [Condition.holds]

/-- The listing and the summary of an account agree: every page says the number of transactions of
the summary, and if no page ends between two transactions with equal sort keys, then a client that
adds up the items of all pages gets the very summary, whatever order Postgres gives to equal keys in
each query. -/
theorem summary_reconciles (localOffset : Datetime → ℤ) (T : TransactionTable)
    (cache : SummaryCache) {accountId : String} (hne : accountId ≠ "")
    (huncached : cache.get accountId = none) {limit : ℕ} (hlow : 1 ≤ limit) (hhigh : limit ≤ 500)
    {sortBy sortDir : String} (hby : sortBy = "timestamp" ∨ sortBy = "amount")
    (hdir : sortDir = "asc" ∨ sortDir = "desc") (plans : ℕ → Plan Transaction) :
    let summary := (getAccountSummary T.rows cache accountId).1
    ∃ page : ℕ → TransactionPage,
      (∀ n, 1 ≤ n →
        listTransactionsEndpoint localOffset (plans n) T.rows T.rows (some accountId) none none none
            none n limit sortBy sortDir = .ok (page n) ∧ (page n).total = summary.transactionCount) ∧
      (Unsplit (sortKey localOffset sortBy sortDir) limit (accountRows T.rows accountId) →
        statementOf ((List.range' 1 (pageCount limit summary.transactionCount)).flatMap fun n =>
          (page n).items) accountId = summary) := by
  have hsummary : (getAccountSummary T.rows cache accountId).1 = summaryOf T.rows accountId := by
    simp only [getAccountSummary, huncached]
    rfl
  rw [hsummary]
  intro summary
  obtain ⟨page, hpage, hitems⟩ := @listTransactionsEndpoint_pages localOffset
    (.ofAccount accountId) none limit sortBy sortDir rfl hlow hhigh hby hdir plans T.rows
    (pageCount limit (accountRows T.rows accountId).length)
  refine ⟨page, fun n hn => ?_, fun hunsplit => ?_⟩
  · obtain ⟨hok, htotal⟩ := hpage n hn
    rw [selectWhere_ofAccount localOffset T.rows hne] at htotal
    exact ⟨hok, htotal⟩
  · have hperm : (transactionPages localOffset plans T.rows (.ofAccount accountId) limit sortBy
        sortDir (pageCount limit (accountRows T.rows accountId).length)).Perm
        (accountRows T.rows accountId) := by
      have hrows := selectWhere_ofAccount localOffset T.rows hne
      rw [← hrows] at hunsplit ⊢
      exact hunsplit.pages_perm plans (length_le_pageCount_mul hlow)
    change statementOf ((List.range' 1 (pageCount limit
      (accountRows T.rows accountId).length)).flatMap fun n => (page n).items) accountId = _
    rw [hitems, statementOf_perm (hperm.map _), statementOf_out]

/-- A credit and a debit of one account, and a credit of another one. -/
def sampleBooked : TransactionTable where
  rows := [sampleListed "T1" 0,
    { sampleListed "T2" 0 with type := .DEBIT, amount := .finite false 25 (-2) },
    { sampleListed "T3" 1 with accountId := "A2" }]
  unique := by decide

/-- The two transactions are listed on pages of one row, sorted by amount. -/
theorem sample_summary_reconciles :
    ∃ page : ℕ → TransactionPage,
      listTransactionsEndpoint (fun _ => 0) (samplePlans 2) sampleBooked.rows sampleBooked.rows
        (some "A1") none none none none 2 1 "amount" "asc" = .ok (page 2) ∧ (page 2).total = 2 ∧
      statementOf ((List.range' 1 2).flatMap fun n => (page n).items) "A1" =
        ⟨"A1", "10.50", "0.25", 2, "10.25"⟩ := by
  have hsummary : (getAccountSummary sampleBooked.rows [] "A1").1 =
      ⟨"A1", "10.50", "0.25", 2, "10.25"⟩ := by decide +kernel
  have hunsplit : Unsplit (sortKey (fun _ => 0) "amount" "asc") 1
      (accountRows sampleBooked.rows "A1") := unsplit_of_nodup (by decide +kernel) 1
  obtain ⟨page, hpage, hstatement⟩ := summary_reconciles (fun _ => 0) sampleBooked []
    (by decide : "A1" ≠ "") rfl le_rfl (by decide) (.inr rfl) (.inl rfl) samplePlans
  rw [hsummary] at hpage hstatement
  exact ⟨page, (hpage 2 (by decide)).1, (hpage 2 (by decide)).2, hstatement hunsplit⟩

end TransactionPlatform
