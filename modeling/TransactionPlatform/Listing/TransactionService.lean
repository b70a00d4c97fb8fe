import Mathlib.Data.Int.ConditionallyCompleteOrder
import Mathlib.Order.WithBot
import TransactionPlatform.Accounts.AccountSummary
import TransactionPlatform.Foundation.Paging
import TransactionPlatform.Validation.Columns

/-!
# Listing transactions

`list_transactions` of `app/services/transaction_service.py` and its endpoint.  Every page is a
query of its own that sorts by one column, `timestamp` or `amount`, and neither of them is unique;
Postgres returns rows with equal values in any order, which is the `Plan` of the query.  The number
of rows is counted by a statement of its own in front of the query.  Each of the two finds the
transactions that are committed when it runs, so that each has a table of its own.

Parameters are values the driver can send: text without NUL, times that UTC can represent.
-/

namespace TransactionPlatform

open Paging

/-! ### The statements -/

/-- The parameters of `list_transactions` that select rows.  A type other than the two does not pass
the endpoint. -/
structure Filters where
  accountId : Option String
  txnType : Option TransactionType
  currency : Option String
  dateFrom : Option Datetime
  dateTo : Option Datetime
  deriving DecidableEq

/-- The conditions that are added with `where`. -/
inductive Condition where
  | accountId (value : String)
  | type (value : TransactionType)
  | currency (value : String)
  | timestampFrom (value : Datetime)
  | timestampTo (value : Datetime)
  deriving DecidableEq

/-- A parameter of type `str` that is not false: neither `None` nor empty. -/
def truthy (value : Option String) : Option String := value.filter fun s => s ≠ ""

/-- The conditions of the two statements. -/
structure Statements where
  stmt : List Condition
  countStmt : List Condition

/-- `if value: stmt = stmt.where(...); count_stmt = count_stmt.where(...)`. -/
def Statements.restrict (q : Statements) : Option Condition → Statements
  | none => q
  | some c => ⟨q.stmt ++ [c], q.countStmt ++ [c]⟩

/-- The statements `list_transactions` builds. -/
def Filters.statements (f : Filters) : Statements :=
  (((((Statements.mk [] []).restrict ((truthy f.accountId).map .accountId)).restrict
    (f.txnType.map .type)).restrict ((truthy f.currency).map .currency)).restrict
    (f.dateFrom.map .timestampFrom)).restrict (f.dateTo.map .timestampTo)

section Query

-- the offset from UTC that the driver assumes for a time without an offset
variable (localOffset : Datetime → ℤ)

/-- The instant a `timestamptz` holds for the value, in microseconds. -/
def Datetime.instant (dt : Datetime) : ℤ := dt.microseconds - dt.utcoffset.getD (localOffset dt)

/-- A row satisfies the condition. -/
def Condition.holds (t : Transaction) : Condition → Bool
  | accountId value => decide (t.accountId = value)
  | type value => decide (t.type = value)
  | currency value => decide (t.currency = value)
  | timestampFrom value => decide (value.instant localOffset ≤ t.timestamp.instant localOffset)
  | timestampTo value => decide (t.timestamp.instant localOffset ≤ value.instant localOffset)

/-- `SELECT ... FROM transactions WHERE ...`. -/
def selectWhere (T : List Transaction) (conditions : List Condition) : List Transaction :=
  T.filter fun t => conditions.all fun c => c.holds localOffset t

/-- The columns by which rows are sorted. -/
inductive SortColumn where
  | timestamp
  | amount
  deriving DecidableEq

/-- `{"timestamp": ..., "amount": ...}.get(sort_by, Transaction.timestamp)`. -/
def sortColumn (sortBy : String) : SortColumn :=
  if sortBy = "timestamp" then .timestamp else if sortBy = "amount" then .amount else .timestamp

/-- The value of the column; `none` is the NaN of the type `NUMERIC`, which is larger than all
numbers. -/
def SortColumn.value (t : Transaction) : SortColumn → Option ℤ
  | timestamp => some (t.timestamp.instant localOffset)
  | amount =>
    match Numeric.column t.amount with
    | .number units _ => some units
    | .nan => none

/-- `asc(sort_column) if sort_dir == "asc" else desc(sort_column)`, as a key that grows in the order
of the rows. -/
def sortKey (sortBy sortDir : String) (t : Transaction) : WithBot (WithTop ℤ) :=
  match (sortColumn sortBy).value localOffset t with
  | some v => if sortDir = "asc" then ((v : WithTop ℤ) : WithBot (WithTop ℤ))
      else ((-v : ℤ) : WithTop ℤ)
  | none => if sortDir = "asc" then ⊤ else ⊥

/-- `list_transactions`: the rows of the page, and the number of all rows.  The count finds the
table `countTable`, and the query behind it the table `T`. -/
def listTransactions (plan : Plan Transaction) (countTable T : List Transaction) (f : Filters)
    (page limit : ℕ) (sortBy sortDir : String) : List Transaction × ℕ :=
  let q := f.statements
  let total := (selectWhere localOffset countTable q.countStmt).length
  let rows := plan.orderBy (sortKey localOffset sortBy sortDir) (selectWhere localOffset T q.stmt)
  (Paging.page limit page rows, total)

/-! ### The endpoint -/

/-- `TransactionOut`. -/
structure TransactionOut where
  transactionId : String
  accountId : String
  type : TransactionType
  amount : Decimal
  currency : String
  timestamp : Datetime
  deriving DecidableEq

/-- `TransactionOut.model_validate(row)`. -/
def Transaction.out (t : Transaction) : TransactionOut :=
  ⟨t.transactionId, t.accountId, t.type, t.amount, t.currency, t.timestamp⟩

/-- `TransactionPage`. -/
structure TransactionPage where
  items : List TransactionOut
  page : ℕ
  limit : ℕ
  total : ℕ
  deriving DecidableEq

/-- The parameter `type` with the pattern `^(CREDIT|DEBIT)$`; the outer `none` is a parameter that
is refused. -/
def typeParameter : Option String → Option (Option TransactionType)
  | none => some none
  | some "CREDIT" => some (some .CREDIT)
  | some "DEBIT" => some (some .DEBIT)
  | some _ => none

/-- `list_transactions_endpoint` behind the rate limiter; a failure is an HTTP status. -/
def listTransactionsEndpoint (plan : Plan Transaction) (countTable T : List Transaction)
    (accountId type currency : Option String) (dateFrom dateTo : Option Datetime) (page limit : ℕ)
    (sortBy sortDir : String) : Except ℕ TransactionPage :=
  match typeParameter type with
  | none => .error 422
  | some txnType =>
    if 1 ≤ page ∧ 1 ≤ limit ∧ limit ≤ 500 ∧ (sortBy = "timestamp" ∨ sortBy = "amount") ∧
        (sortDir = "asc" ∨ sortDir = "desc") then
      let r := listTransactions localOffset plan countTable T
        ⟨accountId, txnType, currency, dateFrom, dateTo⟩ page limit sortBy sortDir
      .ok ⟨r.1.map Transaction.out, page, limit, r.2⟩
    else .error 422

end Query

/-! ### All pages -/

/-- The table `transactions`: `transaction_id` is unique. -/
structure TransactionTable where
  rows : List Transaction
  unique : (rows.map Transaction.transactionId).Nodup

theorem TransactionTable.nodup (T : TransactionTable) : T.rows.Nodup := T.unique.of_map _

/-- A row matches the filters that are given; an empty text is no filter. -/
structure Filters.Matches (localOffset : Datetime → ℤ) (f : Filters) (t : Transaction) : Prop where
  accountId : ∀ value, f.accountId = some value → value ≠ "" → t.accountId = value
  type : ∀ value, f.txnType = some value → t.type = value
  currency : ∀ value, f.currency = some value → value ≠ "" → t.currency = value
  dateFrom : ∀ value, f.dateFrom = some value →
    value.instant localOffset ≤ t.timestamp.instant localOffset
  dateTo : ∀ value, f.dateTo = some value →
    t.timestamp.instant localOffset ≤ value.instant localOffset

variable {localOffset : Datetime → ℤ} {f : Filters}

theorem Statements.restrict_same {q : Statements} (h : q.countStmt = q.stmt)
    (c : Option Condition) : (q.restrict c).countStmt = (q.restrict c).stmt := by
  cases c with
  | none => exact h
  | some c =>
    unfold restrict
    rw [h]

/-- The count has the conditions of the query. -/
theorem Filters.countStmt_eq (f : Filters) : f.statements.countStmt = f.statements.stmt :=
  Statements.restrict_same (Statements.restrict_same (Statements.restrict_same
    (Statements.restrict_same (Statements.restrict_same rfl _) _) _) _) _

theorem Statements.mem_restrict {q : Statements} {c : Option Condition} {x : Condition} :
    x ∈ (q.restrict c).stmt ↔ x ∈ q.stmt ∨ c = some x := by
  cases c with
  | none => simp [restrict]
  | some c => simp [restrict, eq_comm]

theorem mem_truthy {value : Option String} {s : String} :
    truthy value = some s ↔ value = some s ∧ s ≠ "" := by
  unfold truthy
  rw [Option.filter_eq_some_iff, decide_eq_true_iff]

/-- The conditions of the query. -/
theorem Filters.mem_stmt {x : Condition} :
    x ∈ f.statements.stmt ↔
      (∃ s, (f.accountId = some s ∧ s ≠ "") ∧ .accountId s = x) ∨
      (∃ s, f.txnType = some s ∧ .type s = x) ∨
      (∃ s, (f.currency = some s ∧ s ≠ "") ∧ .currency s = x) ∨
      (∃ s, f.dateFrom = some s ∧ .timestampFrom s = x) ∨
      ∃ s, f.dateTo = some s ∧ .timestampTo s = x := by
  simp only [statements, Statements.mem_restrict, List.not_mem_nil, false_or,
    Option.map_eq_some_iff, mem_truthy, or_assoc]

/-- The query selects the rows that match. -/
theorem mem_selectWhere {T : List Transaction} {t : Transaction} :
    t ∈ selectWhere localOffset T f.statements.stmt ↔ t ∈ T ∧ f.Matches localOffset t := by
  rw [selectWhere, List.mem_filter, List.all_eq_true]
  refine and_congr_right fun _ => ⟨fun h => ⟨?_, ?_, ?_, ?_, ?_⟩, fun h x hx => ?_⟩
  · intro s hs hne
    exact of_decide_eq_true (h _ (Filters.mem_stmt.mpr (.inl ⟨s, ⟨hs, hne⟩, rfl⟩)))
  · intro s hs
    exact of_decide_eq_true (h _ (Filters.mem_stmt.mpr (.inr (.inl ⟨s, hs, rfl⟩))))
  · intro s hs hne
    exact of_decide_eq_true (h _ (Filters.mem_stmt.mpr (.inr (.inr (.inl ⟨s, ⟨hs, hne⟩, rfl⟩)))))
  · intro s hs
    exact of_decide_eq_true (h _ (Filters.mem_stmt.mpr (.inr (.inr (.inr (.inl ⟨s, hs, rfl⟩))))))
  · intro s hs
    exact of_decide_eq_true (h _ (Filters.mem_stmt.mpr (.inr (.inr (.inr (.inr ⟨s, hs, rfl⟩))))))
  · rcases Filters.mem_stmt.mp hx with ⟨s, ⟨hs, hne⟩, rfl⟩ | ⟨s, hs, rfl⟩ | ⟨s, ⟨hs, hne⟩, rfl⟩ |
      ⟨s, hs, rfl⟩ | ⟨s, hs, rfl⟩
    · exact decide_eq_true (h.accountId s hs hne)
    · exact decide_eq_true (h.type s hs)
    · exact decide_eq_true (h.currency s hs hne)
    · exact decide_eq_true (h.dateFrom s hs)
    · exact decide_eq_true (h.dateTo s hs)

/-- The pages `1` to `k` of `list_transactions`, one after the other, while the table stays as it
is; every page is a query of its own. -/
def transactionPages (localOffset : Datetime → ℤ) (plans : ℕ → Plan Transaction)
    (T : List Transaction) (f : Filters) (limit : ℕ) (sortBy sortDir : String) (k : ℕ) :
    List Transaction :=
  (List.range' 1 k).flatMap fun n =>
    (listTransactions localOffset (plans n) T T f n limit sortBy sortDir).1

theorem total_eq (plan : Plan Transaction) (countTable T : List Transaction) (page limit : ℕ)
    (sortBy sortDir : String) :
    (listTransactions localOffset plan countTable T f page limit sortBy sortDir).2 =
      (selectWhere localOffset countTable f.statements.stmt).length := by
  unfold listTransactions
  dsimp only
  rw [f.countStmt_eq]

/-- For parameters that the endpoint accepts, every page says the same total, and the items of the
pages are the rows of `list_transactions`. -/
theorem listTransactionsEndpoint_pages {type : Option String} {limit : ℕ} {sortBy sortDir : String}
    (htype : typeParameter type = some f.txnType) (hlow : 1 ≤ limit) (hhigh : limit ≤ 500)
    (hby : sortBy = "timestamp" ∨ sortBy = "amount") (hdir : sortDir = "asc" ∨ sortDir = "desc")
    (plans : ℕ → Plan Transaction) (T : List Transaction) (k : ℕ) :
    ∃ page : ℕ → TransactionPage,
      (∀ n, 1 ≤ n →
        listTransactionsEndpoint localOffset (plans n) T T f.accountId type f.currency f.dateFrom
            f.dateTo n limit sortBy sortDir = .ok (page n) ∧
          (page n).total = (selectWhere localOffset T f.statements.stmt).length) ∧
      (List.range' 1 k).flatMap (fun n => (page n).items) =
        (transactionPages localOffset plans T f limit sortBy sortDir k).map Transaction.out := by
  refine ⟨fun n =>
    let r := listTransactions localOffset (plans n) T T f n limit sortBy sortDir
    ⟨r.1.map Transaction.out, n, limit, r.2⟩,
    fun n hn => ⟨?_, total_eq (plans n) T T n limit sortBy sortDir⟩, ?_⟩
  · unfold listTransactionsEndpoint
    rw [htype]
    exact if_pos ⟨hn, hlow, hhigh, hby, hdir⟩
  · exact List.map_flatMap.symm

/-- Paging through transactions loses and repeats nothing, whatever order Postgres gives to equal
sort keys in each query, exactly if no page ends between two matching rows with equal sort keys. -/
theorem paging_exact_iff (localOffset : Datetime → ℤ) (T : TransactionTable) (f : Filters)
    (sortBy sortDir : String) (limit : ℕ) (hlimit : 1 ≤ limit) :
    (∀ plans : ℕ → Plan Transaction,
      let total := (listTransactions localOffset (plans 1) T.rows T.rows f 1 limit sortBy sortDir).2
      let all := transactionPages localOffset plans T.rows f limit sortBy sortDir
        (pageCount limit total)
      all.Nodup ∧ (∀ t, t ∈ all ↔ t ∈ T.rows ∧ f.Matches localOffset t) ∧
        (all.Pairwise fun x y => sortKey localOffset sortBy sortDir x ≤
          sortKey localOffset sortBy sortDir y) ∧
        all.length = total) ↔
    Unsplit (sortKey localOffset sortBy sortDir) limit
      (selectWhere localOffset T.rows f.statements.stmt) := by
  obtain ⟨rows, hrows⟩ : ∃ rows, rows = selectWhere localOffset T.rows f.statements.stmt :=
    ⟨_, rfl⟩
  have hnodup : rows.Nodup := by
    rw [hrows]
    exact T.nodup.filter _
  have hk : rows.length ≤ pageCount limit rows.length * limit := length_le_pageCount_mul hlimit
  have hpages : ∀ (plans : ℕ → Plan Transaction) (k : ℕ),
      transactionPages localOffset plans T.rows f limit sortBy sortDir k =
        pages plans (sortKey localOffset sortBy sortDir) limit k rows := by
    intro plans k
    rw [hrows]
    rfl
  simp only [total_eq, hpages]
  rw [← hrows, ← forall_pages_perm_iff hnodup hk]
  constructor
  · intro h plans
    obtain ⟨hnodup', hmem, -, -⟩ := h plans
    refine (List.perm_ext_iff_of_nodup hnodup' hnodup).mpr fun t => ?_
    rw [hmem t, hrows, mem_selectWhere]
  · intro h plans
    refine ⟨(h plans).nodup_iff.mpr hnodup, fun t => ?_, pairwise_pages plans hk,
      length_pages plans hk⟩
    rw [(h plans).mem_iff, hrows, mem_selectWhere]

/-- A transaction of one account, at a second of one minute. -/
def sampleListed (transactionId : String) (second : ℕ) : Transaction :=
  ⟨transactionId, "A1", .CREDIT, .finite false 1050 (-2), "USD",
    ⟨2026, 9, 1, 10, 0, second, 0, some 0⟩, none⟩

/-- Without filters. -/
def noFilters : Filters := ⟨none, none, none, none, none⟩

/-- Two transactions at different times. -/
def sampleTable : TransactionTable := ⟨[sampleListed "T1" 0, sampleListed "T2" 1], by decide⟩

/-- The second query finds the rows the other way round. -/
def samplePlans (n : ℕ) : Plan Transaction :=
  if n = 2 then ⟨List.reverse, List.reverse_perm⟩ else ⟨id, fun l => .refl l⟩

theorem sample_paging_exact :
    (transactionPages (fun _ => 0) samplePlans sampleTable.rows noFilters 1 "timestamp" "desc"
      2).Nodup ∧
    sampleListed "T1" 0 ∈ transactionPages (fun _ => 0) samplePlans sampleTable.rows noFilters 1
      "timestamp" "desc" 2 := by
  have htotal : pageCount 1 (listTransactions (fun _ => 0) (samplePlans 1) sampleTable.rows
      sampleTable.rows noFilters 1 1 "timestamp" "desc").2 = 2 := by decide +kernel
  obtain ⟨hnodup, hmem, -, -⟩ :=
    (paging_exact_iff (fun _ => 0) sampleTable noFilters "timestamp" "desc" 1 le_rfl).mpr
      (unsplit_of_nodup (by decide +kernel) 1) samplePlans
  rw [htotal] at hnodup hmem
  exact ⟨hnodup, (hmem _).mpr ⟨List.mem_cons_self, nofun, nofun, nofun, nofun, nofun⟩⟩

/-- Two transactions at the same time, on pages of one row: if the second query finds them the other
way round, the second page repeats the first one, and the other transaction is on no page. -/
theorem equal_keys_repeated :
    let x := sampleListed "T1" 0
    let y := sampleListed "T2" 0
    ∃ plans : ℕ → Plan Transaction,
      (listTransactions (fun _ => 0) (plans 1) [x, y] [x, y] noFilters 1 1 "timestamp" "desc").2 =
        2 ∧
      transactionPages (fun _ => 0) plans [x, y] noFilters 1 "timestamp" "desc" 2 = [x, x] ∧
      ([x, y].map Transaction.transactionId).Nodup ∧ noFilters.Matches (fun _ => 0) y := by
  intro x y
  exact ⟨samplePlans, by decide +kernel, by decide +kernel, by decide +kernel, nofun, nofun, nofun,
    nofun, nofun⟩

end TransactionPlatform
