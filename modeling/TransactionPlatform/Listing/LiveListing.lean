import TransactionPlatform.Foundation.LivePaging
import TransactionPlatform.Listing.TransactionService
import TransactionPlatform.Worker.Ledger

/-!
# Reading transactions while files are imported

`get_transaction` and `list_transactions` of `app/services/transaction_service.py` with their
endpoints, called by clients while workers insert rows.  Transactions are only appended, so what has
been read once stays (`found_transaction_stays`), and the pages of a listing skip no row that was
there when the first of them was read (`listing_skips_nothing`).
-/

namespace TransactionPlatform

open Interleaved Paging

/-! ### One transaction -/

/-- The exceptions behind an answer without a body: one that FastAPI turns into a response, and
one that ends in `unhandled_exception_handler`. -/
inductive LookupExn where
  | HTTPException (statusCode : ℕ) (detail : String)
  | MultipleResultsFound
  deriving DecidableEq

/-- `result.scalar_one_or_none()`. -/
def scalarOneOrNone {α : Type} : List α → Except LookupExn (Option α)
  | [] => .ok none
  | [x] => .ok (some x)
  | _ :: _ :: _ => .error .MultipleResultsFound

/-- `get_transaction`. -/
def getTransaction (T : List Transaction) (transactionId : String) :
    Except LookupExn (Option Transaction) :=
  scalarOneOrNone (T.filter fun t => decide (t.transactionId = transactionId))

/-- `get_transaction_endpoint` behind the rate limiter. -/
def getTransactionEndpoint (T : List Transaction) (transactionId : String) :
    Except LookupExn TransactionOut := do
  match ← getTransaction T transactionId with
  | none => .error (.HTTPException 404 "Transaction not found")
  | some txn => .ok txn.out

variable {T T' : List Transaction} {t : Transaction} {transactionId : String}

/-- While ids are unique, a transaction is found under its id. -/
theorem getTransaction_of_mem (hT : (T.map Transaction.transactionId).Nodup) (ht : t ∈ T) :
    getTransaction T t.transactionId = .ok (some t) := by
  have hrows : T.filter (fun y => decide (y.transactionId = t.transactionId)) = [t] := by
    refine List.perm_singleton.mp ((List.perm_ext_iff_of_nodup (hT.of_map.filter _)
      (List.nodup_singleton t)).mpr fun y => ?_)
    simp only [List.mem_filter, decide_eq_true_eq, List.mem_singleton]
    refine ⟨fun hy => List.inj_on_of_nodup_map hT hy.1 ht hy.2, ?_⟩
    rintro rfl
    exact ⟨ht, rfl⟩
  simp [getTransaction, hrows, scalarOneOrNone]

theorem getTransaction_of_not_mem (h : transactionId ∉ T.map Transaction.transactionId) :
    getTransaction T transactionId = .ok none := by
  have hrows : T.filter (fun y => decide (y.transactionId = transactionId)) = [] := by
    rw [List.filter_eq_nil_iff]
    exact fun y hy hid => h (List.mem_map.mpr ⟨y, hy, of_decide_eq_true hid⟩)
  simp [getTransaction, hrows, scalarOneOrNone]

/-- While ids are unique, the answer is the transaction with the id, or 404 if there is none. -/
theorem getTransactionEndpoint_cases (hT : (T.map Transaction.transactionId).Nodup)
    (transactionId : String) :
    (∃ t ∈ T, t.transactionId = transactionId ∧
      getTransactionEndpoint T transactionId = .ok t.out) ∨
    (transactionId ∉ T.map Transaction.transactionId ∧
      getTransactionEndpoint T transactionId =
        .error (.HTTPException 404 "Transaction not found")) := by
  by_cases h : transactionId ∈ T.map Transaction.transactionId
  · obtain ⟨t, ht, rfl⟩ := List.mem_map.mp h
    refine .inl ⟨t, ht, rfl, ?_⟩
    rw [getTransactionEndpoint, getTransaction_of_mem hT ht]
    rfl
  · refine .inr ⟨h, ?_⟩
    rw [getTransactionEndpoint, getTransaction_of_not_mem h]
    rfl

/-! ### The rows of a page -/

variable {localOffset : Datetime → ℤ} {f : Filters} {plan : Plan Transaction}
variable {countTable : List Transaction}

/-- The rows of a page are matching rows of the table. -/
theorem mem_of_mem_listTransactions {page limit : ℕ} {sortBy sortDir : String}
    (h : t ∈ (listTransactions localOffset plan countTable T f page limit sortBy sortDir).1) :
    t ∈ T ∧ f.Matches localOffset t := mem_selectWhere.mp (mem_of_mem_page h)

/-- What is listed on a page is in the table. -/
theorem exists_of_mem_items {accountId type currency : Option String}
    {dateFrom dateTo : Option Datetime} {page limit : ℕ} {sortBy sortDir : String}
    {answer : TransactionPage} (h : listTransactionsEndpoint localOffset plan countTable T accountId
      type currency dateFrom dateTo page limit sortBy sortDir = .ok answer) {x : TransactionOut}
    (hx : x ∈ answer.items) : ∃ t ∈ T, t.out = x := by
  unfold listTransactionsEndpoint at h
  cases htype : typeParameter type with
  | none => simp [htype] at h
  | some txnType =>
    simp only [htype] at h
    split at h
    · cases h
      obtain ⟨t, ht, rfl⟩ := List.mem_map.mp hx
      exact ⟨t, (mem_of_mem_listTransactions ht).1, rfl⟩
    · cases h

/-! ### Runs of the workers -/

variable {py : Python} {files : String → Option Csv}

/-- Along a run of the workers, ids stay unique and transactions are only appended. -/
theorem ledger_reaches {w : World} (hw : Unprocessed w.db) {c d : WorkerPool}
    (hc : (workers py files).Reaches (fun _ _ => True) ⟨w, []⟩ c)
    (hd : (workers py files).Reaches (fun _ _ => True) c d) :
    (c.world.db.transactions.map Transaction.transactionId).Nodup ∧
    (d.world.db.transactions.map Transaction.transactionId).Nodup ∧
    c.world.db.transactions <+: d.world.db.transactions := by
  have hsound := ledgerOutline_sound py files w.db.transactions
  obtain ⟨⟨ph, hph⟩, -⟩ := workers_reaches hsound hw.ledger hc
  obtain ⟨⟨ph', hph'⟩, hguar⟩ := hsound.reaches hph hd
  have hinv : Ledger py files w.db.transactions c.world.db := hph.inv
  have hinv' : Ledger py files w.db.transactions d.world.db := hph'.inv
  exact ⟨hinv.nodup, hinv'.nodup, prefix_of_guar hguar⟩

/-- What the API has shown of a transaction stays true, whatever the workers do meanwhile and
afterwards: no lookup finds two rows, a transaction that has been found is found again with the same
values, and so is every item of a page of a listing, whatever table its count has found. -/
theorem found_transaction_stays (localOffset : Datetime → ℤ) (py : Python)
    (files : String → Option Csv) {w : World} (hw : Unprocessed w.db) {c d : WorkerPool}
    (hc : (workers py files).Reaches (fun _ _ => True) ⟨w, []⟩ c)
    (hd : (workers py files).Reaches (fun _ _ => True) c d) :
    (∀ transactionId, getTransactionEndpoint c.world.db.transactions transactionId ≠
      .error .MultipleResultsFound) ∧
    (∀ transactionId x, getTransactionEndpoint c.world.db.transactions transactionId = .ok x →
      getTransactionEndpoint d.world.db.transactions transactionId = .ok x) ∧
    ∀ (plan : Plan Transaction) countTable accountId type currency dateFrom dateTo page limit sortBy
      sortDir answer, listTransactionsEndpoint localOffset plan countTable c.world.db.transactions
        accountId type currency dateFrom dateTo page limit sortBy sortDir = .ok answer →
      ∀ x ∈ answer.items,
        getTransactionEndpoint d.world.db.transactions x.transactionId = .ok x := by
  obtain ⟨hnodup, hnodup', hfront⟩ := ledger_reaches hw hc hd
  -- a row of the table is found at any later time
  have hlater : ∀ t ∈ c.world.db.transactions,
      getTransactionEndpoint d.world.db.transactions t.transactionId = .ok t.out := by
    intro t ht
    rw [getTransactionEndpoint, getTransaction_of_mem hnodup' (hfront.subset ht)]
    rfl
  refine ⟨fun transactionId herr => ?_, fun transactionId x hx => ?_, ?_⟩
  · rcases getTransactionEndpoint_cases hnodup transactionId with ⟨t, -, -, hok⟩ | ⟨-, hnone⟩
    · simp [hok] at herr
    · simp [hnone] at herr
  · rcases getTransactionEndpoint_cases hnodup transactionId with ⟨t, ht, rfl, hok⟩ | ⟨-, hnone⟩
    · rw [← hx, hok]
      exact hlater t ht
    · simp [hnone] at hx
  · intro plan countTable accountId type currency dateFrom dateTo page limit sortBy sortDir answer
      hanswer x hx
    obtain ⟨t, ht, rfl⟩ := exists_of_mem_items hanswer hx
    exact hlater t ht

/-- Two transactions are in the table before the sample file is imported. -/
def sampleLedger : World :=
  { sampleWorld with
    db := { sampleWorld.db with transactions := [sampleListed "T8" 30, sampleListed "T9" 31] } }

theorem sampleLedger_unprocessed : Unprocessed sampleLedger.db := by
  refine ⟨by decide, fun id job hjob => ?_⟩
  rw [List.mem_singleton.mp (List.mem_of_find?_eq_some hjob)]
  exact ⟨rfl, rfl⟩

/-- The table after the import, which inserts a transaction that is older than both. -/
def sampleImported : List Transaction :=
  [sampleListed "T8" 30, sampleListed "T9" 31,
    { sampleListed "T1" 0 with importJobId := some sampleId }]

theorem sampleLedger_imported :
    ∃ d : WorkerPool, (workers .ascii (sampleFiles sampleCsv)).Reaches (fun _ _ => True)
        ⟨sampleLedger, []⟩ d ∧ d.world.db.transactions = sampleImported := by
  have hrun : ((workers .ascii (sampleFiles sampleCsv)).perform (fun _ _ => true)
      ⟨sampleLedger, []⟩ sampleEvents).map (fun d => d.world.db.transactions) =
      some sampleImported := by decide +kernel
  obtain ⟨d, hd, htable⟩ := Option.map_eq_some_iff.mp hrun
  exact ⟨d, System.reaches_of_perform (fun _ _ _ => trivial) hd, htable⟩

/-- A transaction that is found before the import is found after it. -/
theorem sample_transaction_stays :
    ∃ d : WorkerPool, d.world.db.transactions.length = 3 ∧
      getTransactionEndpoint d.world.db.transactions "T8" = .ok (sampleListed "T8" 30).out := by
  obtain ⟨d, hd, htable⟩ := sampleLedger_imported
  obtain ⟨-, hfound, -⟩ := found_transaction_stays (fun _ => 0) .ascii (sampleFiles sampleCsv)
    sampleLedger_unprocessed .refl hd
  exact ⟨d, by simp [htable, sampleImported], hfound "T8" _ (by decide +kernel)⟩

/-! ### All pages, each at its own time -/

/-- The rows that the conditions select from a longer table. -/
theorem sublist_selectWhere (h : T <+: T') (conditions : List Condition) :
    (selectWhere localOffset T conditions).Sublist (selectWhere localOffset T' conditions) :=
  h.sublist.filter _

/-- For parameters that the endpoint accepts, the items of the pages are those of `livePages`; a page
is full exactly if the table its query finds has more rows than the pages in front of it. -/
theorem listTransactionsEndpoint_livePages (localOffset : Datetime → ℤ) {type : Option String}
    {limit : ℕ} {sortBy sortDir : String} (htype : typeParameter type = some f.txnType)
    (hlow : 1 ≤ limit) (hhigh : limit ≤ 500) (hby : sortBy = "timestamp" ∨ sortBy = "amount")
    (hdir : sortDir = "asc" ∨ sortDir = "desc") (plans : ℕ → Plan Transaction)
    (countTables T : ℕ → List Transaction) :
    let tables := fun n => selectWhere localOffset (T n) f.statements.stmt
    ∃ page : ℕ → TransactionPage,
      (∀ n, 1 ≤ n →
        listTransactionsEndpoint localOffset (plans n) (countTables n) (T n) f.accountId type
            f.currency f.dateFrom f.dateTo n limit sortBy sortDir = .ok (page n) ∧
          ((page n).items.length < limit → (tables n).length ≤ n * limit)) ∧
      ∀ k, (List.range' 1 k).flatMap (fun n => (page n).items) =
        (livePages plans (sortKey localOffset sortBy sortDir) limit k tables).map
          Transaction.out := by
  intro tables
  refine ⟨fun n =>
    let r := listTransactions localOffset (plans n) (countTables n) (T n) f n limit sortBy sortDir
    ⟨r.1.map Transaction.out, n, limit, r.2⟩, fun n hn => ⟨?_, fun hlast => ?_⟩, fun k => ?_⟩
  · unfold listTransactionsEndpoint
    rw [htype]
    exact if_pos ⟨hn, hlow, hhigh, hby, hdir⟩
  · rw [List.length_map] at hlast
    have hrows := length_le_of_page_lt hn hlast
    rwa [((plans n).sorted_orderBy _ (tables n)).perm.length_eq] at hrows
  · rw [livePages, List.map_flatMap]
    rfl

/-- Let a client read one page after the other while the workers insert transactions, until a page
is not full.  Then every item is a matching transaction, and every transaction that matched when the
first page was read is among the items, unless it shares its sort key with another one.  Some may be
listed twice.  The workers also run between the two statements of a call, so the total of a page may
be smaller than the number of rows its query finds; it is not what the client goes by. -/
theorem listing_skips_nothing (localOffset : Datetime → ℤ) (py : Python)
    (files : String → Option Csv) {w : World} (hw : Unprocessed w.db) {b c : ℕ → WorkerPool}
    (hstart : (workers py files).Reaches (fun _ _ => True) ⟨w, []⟩ (b 1))
    (hb : ∀ n, 1 ≤ n → (workers py files).Reaches (fun _ _ => True) (b n) (c n))
    (hc : ∀ n, 1 ≤ n → (workers py files).Reaches (fun _ _ => True) (c n) (b (n + 1)))
    (f : Filters) {type : Option String} (htype : typeParameter type = some f.txnType) {limit : ℕ}
    (hlow : 1 ≤ limit) (hhigh : limit ≤ 500) {sortBy sortDir : String}
    (hby : sortBy = "timestamp" ∨ sortBy = "amount") (hdir : sortDir = "asc" ∨ sortDir = "desc")
    (plans : ℕ → Plan Transaction) :
    ∃ page : ℕ → TransactionPage,
      (∀ n, 1 ≤ n → listTransactionsEndpoint localOffset (plans n) (b n).world.db.transactions
        (c n).world.db.transactions f.accountId type f.currency f.dateFrom f.dateTo n limit sortBy
          sortDir = .ok (page n)) ∧
      ∀ k, 1 ≤ k → (page k).items.length < limit →
        let items := (List.range' 1 k).flatMap fun n => (page n).items
        (∀ x ∈ items, ∃ t ∈ (c k).world.db.transactions, f.Matches localOffset t ∧ t.out = x) ∧
        ∀ t ∈ (c 1).world.db.transactions, f.Matches localOffset t →
          (∀ y ∈ (c k).world.db.transactions, f.Matches localOffset y →
            sortKey localOffset sortBy sortDir y = sortKey localOffset sortBy sortDir t → y = t) →
          t.out ∈ items := by
  have hnext : ∀ n, 1 ≤ n → (workers py files).Reaches (fun _ _ => True) (c n) (c (n + 1)) :=
    fun n hn => (hc n hn).trans (hb (n + 1) (Nat.le_succ_of_le hn))
  have hreach : ∀ n, 1 ≤ n → (workers py files).Reaches (fun _ _ => True) ⟨w, []⟩ (c n) := by
    intro n hn
    induction n, hn using Nat.le_induction with
    | base => exact hstart.trans (hb 1 le_rfl)
    | succ n hn ih => exact ih.trans (hnext n hn)
  have hgrow : ∀ n, 1 ≤ n →
      (c n).world.db.transactions <+: (c (n + 1)).world.db.transactions :=
    fun n hn => (ledger_reaches hw (hreach n hn) (hnext n hn)).2.2
  have hfront : ∀ m n, 1 ≤ m → m ≤ n →
      (c m).world.db.transactions <+: (c n).world.db.transactions := by
    intro m n hm hmn
    induction n, hmn using Nat.le_induction with
    | base => exact List.prefix_rfl
    | succ n hmn ih => exact ih.trans (hgrow n (hm.trans hmn))
  obtain ⟨page, hpage, hitems⟩ := listTransactionsEndpoint_livePages localOffset
    htype hlow hhigh hby hdir plans (fun n => (b n).world.db.transactions)
    fun n => (c n).world.db.transactions
  refine ⟨page, fun n hn => (hpage n hn).1, fun k hk hlast => ?_⟩
  have hall := (hpage k hk).2 hlast
  dsimp only
  rw [hitems k]
  refine ⟨fun x hx => ?_, fun t ht hmatch hown => ?_⟩
  · obtain ⟨t, ht, rfl⟩ := List.mem_map.mp hx
    obtain ⟨n, h1, hn, ht⟩ := mem_livePages_iff.mp ht
    obtain ⟨hmem, hmatch⟩ := mem_selectWhere.mp (mem_of_mem_page ht)
    exact ⟨t, (hfront n k h1 hn).subset hmem, hmatch, rfl⟩
  · refine List.mem_map_of_mem (mem_livePages plans
      (fun n hn => sublist_selectWhere (hgrow n hn) _) (mem_selectWhere.mpr ⟨ht, hmatch⟩)
      (fun y hy hkey => ?_) hall hk)
    obtain ⟨hy, hymatch⟩ := mem_selectWhere.mp hy
    exact hown y hy hymatch hkey

theorem matches_noFilters (t : Transaction) : noFilters.Matches localOffset t :=
  ⟨by simp [noFilters], by simp [noFilters], by simp [noFilters], by simp [noFilters],
    by simp [noFilters]⟩

/-- The import runs between the two statements of the first call, and inserts a transaction that is
older than the others.  The first total is 2, and the client goes on until the empty fourth page; the
newest transaction is on the third one. -/
theorem sample_listing_skips_nothing :
    ∃ (b c : ℕ → WorkerPool) (page : ℕ → TransactionPage),
      (b 1).world.db.transactions.length = 2 ∧ (c 1).world.db.transactions.length = 3 ∧
      (∀ n, 1 ≤ n → listTransactionsEndpoint (fun _ => 0) (samplePlans n)
        (b n).world.db.transactions (c n).world.db.transactions none none none none none n 1
          "timestamp" "asc" = .ok (page n)) ∧
      (sampleListed "T9" 31).out ∈ (List.range' 1 4).flatMap fun n => (page n).items := by
  obtain ⟨d, hd, htable⟩ := sampleLedger_imported
  obtain ⟨b, hb1, hb⟩ : ∃ b : ℕ → WorkerPool, b 1 = ⟨sampleLedger, []⟩ ∧ ∀ n, 2 ≤ n → b n = d :=
    ⟨fun n => if n = 1 then ⟨sampleLedger, []⟩ else d, if_pos rfl, fun n hn => if_neg (by omega)⟩
  have hcount : ∀ n, 1 ≤ n → (workers .ascii (sampleFiles sampleCsv)).Reaches (fun _ _ => True)
      (b n) d := by
    intro n hn
    rcases hn.eq_or_lt with rfl | hlt
    · rw [hb1]
      exact hd
    · rw [hb n hlt]
      exact .refl
  have hstart : (workers .ascii (sampleFiles sampleCsv)).Reaches (fun _ _ => True)
      ⟨sampleLedger, []⟩ (b 1) := by
    rw [hb1]
    exact .refl
  have htype : typeParameter none = some noFilters.txnType := rfl
  obtain ⟨page, hpage, hall⟩ := listing_skips_nothing (fun _ => 0) .ascii (sampleFiles sampleCsv)
    sampleLedger_unprocessed hstart (c := fun _ => d) hcount
    (fun n hn => by rw [hb (n + 1) (by omega)]; exact .refl) noFilters htype le_rfl (by decide)
    (.inl rfl) (.inl rfl) samplePlans
  have hlast : listTransactionsEndpoint (fun _ => 0) (samplePlans 4) sampleImported sampleImported
      none none none none none 4 1 "timestamp" "asc" = .ok (page 4) := by
    have hfour := hpage 4 (by omega)
    rwa [hb 4 (by omega), htable] at hfour
  have hempty : (page 4).items.length = 0 := by
    have heval : (listTransactionsEndpoint (fun _ => 0) (samplePlans 4) sampleImported
      sampleImported none none none none none 4 1 "timestamp" "asc").map
        (fun answer => answer.items.length) = .ok 0 := by decide +kernel
    rw [hlast] at heval
    exact Except.ok.inj heval
  refine ⟨b, fun _ => d, page, by rw [hb1]; decide, by rw [htable]; rfl, hpage, ?_⟩
  obtain ⟨-, hitems⟩ := hall 4 (by omega) (by rw [hempty]; exact Nat.zero_lt_one)
  have hown : ∀ y ∈ sampleImported, sortKey (fun _ => 0) "timestamp" "asc" y =
      sortKey (fun _ => 0) "timestamp" "asc" (sampleListed "T9" 31) → y = sampleListed "T9" 31 := by
    decide +kernel
  refine hitems (sampleListed "T9" 31) ?_ (matches_noFilters _) ?_
  · rw [htable]
    decide
  · rw [htable]
    exact fun y hy _ => hown y hy

end TransactionPlatform
