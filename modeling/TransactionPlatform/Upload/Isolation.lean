import Mathlib.Data.List.Find
import TransactionPlatform.Foundation.Noninterference
import TransactionPlatform.Upload.Rows

/-!
# Clients and idempotency keys

The keys of all clients share one column with one unique constraint, and a lookup does not ask for
the client.  A key made from the content names its client, but a header is taken as it is: two
clients that send the same header, or one that sends the content key of the other, meet in one row.
`idempotency_scoped_to_client` shows that this is the only way in which clients can meet: as long as
no request clashes with one that has a row or is going on, a client gets its own jobs, and its
uploads end as if it were alone.
-/

namespace TransactionPlatform

open Interleaved

variable {svc : Service} {client : Uuid} {r r' : Request} {o : UploadOp} {f : Fault}
variable {w w' : UploadWorld} {a a' : Stage}

/-! ### Keys that clash -/

/-- The request has a non-empty `Idempotency-Key` header. -/
def Request.named (r : Request) : Bool :=
  match r.idempotencyKeyHeader with
  | none => false
  | some header => decide (header ≠ "")

/-- Two clients have sent requests that pass the checks and have the same key, which is the header
of one of them. -/
structure Clash (svc : Service) (r r' : Request) : Prop where
  clients : r.clientId ≠ r'.clientId
  passes : svc.Passes r ∧ svc.Passes r'
  named : r.named = true ∨ r'.named = true
  key : svc.idempotencyKey r = svc.idempotencyKey r'

instance (svc : Service) (r r' : Request) : Decidable (Clash svc r r') :=
  decidable_of_iff (r.clientId ≠ r'.clientId ∧ (svc.Passes r ∧ svc.Passes r') ∧
      (r.named = true ∨ r'.named = true) ∧ svc.idempotencyKey r = svc.idempotencyKey r')
    ⟨fun ⟨hclients, hpasses, hnamed, hkey⟩ => ⟨hclients, hpasses, hnamed, hkey⟩,
      fun h => ⟨h.clients, h.passes, h.named, h.key⟩⟩

theorem Clash.symm (h : Clash svc r r') : Clash svc r' r :=
  ⟨h.clients.symm, h.passes.symm, h.named.symm, h.key.symm⟩

/-- The `i`-th call is the call of the request, and it is going on. -/
def GoesOn (c : UploadPool) (i : ℕ) (r : Request) : Prop :=
  ∃ o k, c.procs[i]? = some ⟨r, some (.call o k)⟩

/-- The request has a row, or its call is going on. -/
def Active (c : UploadPool) (r : Request) : Prop :=
  c.world.HasJob r.jobId ∨ ∃ i, GoesOn c i r

/-- No request clashes with an earlier one that has a row or whose call is going on. -/
def Separate (svc : Service) (c : UploadPool) : UploadEvent → Prop
  | .arrive (.request r) => ∀ r' ∈ c.world.requests, Active c r' → ¬ Clash svc r' r
  | _ => True

theorem Service.idempotencyKey_of_not_named (h : r.named = false) :
    svc.idempotencyKey r = svc.contentKey r := by
  unfold Request.named at h
  unfold idempotencyKey
  cases hheader : r.idempotencyKeyHeader with
  | none => rfl
  | some header =>
    rw [hheader] at h
    have hempty : header = "" := not_not.mp (of_decide_eq_false h)
    simp only [hempty, if_true]

/-- A key made from the content names its client. -/
theorem Service.clientId_of_contentKey (h : svc.contentKey r = svc.contentKey r') :
    r.clientId = r'.clientId := by
  have htext : r.clientId.text = r'.clientId.text := by
    have hlist := congrArg String.toList h
    simp only [contentKey, String.toList_append] at hlist
    have hlength : r.clientId.text.toList.length = r'.clientId.text.toList.length := by
      rw [String.length_toList, String.length_toList, r.clientId.length_eq, r'.clientId.length_eq]
    exact String.toList_injective (List.append_inj_right' hlist hlength)
  revert htext
  cases r.clientId
  cases r'.clientId
  intro htext
  cases htext
  rfl

/-- Requests of two clients that have the same key and pass the checks clash. -/
theorem clash_of_key (hpasses : svc.Passes r) (hpasses' : svc.Passes r')
    (hclients : r.clientId ≠ r'.clientId) (hkey : svc.idempotencyKey r = svc.idempotencyKey r') :
    Clash svc r r' := by
  refine ⟨hclients, ⟨hpasses, hpasses'⟩, ?_, hkey⟩
  cases hr : r.named with
  | true => exact .inl rfl
  | false =>
    cases hr' : r'.named with
    | true => exact .inr rfl
    | false =>
      rw [Service.idempotencyKey_of_not_named hr, Service.idempotencyKey_of_not_named hr'] at hkey
      exact absurd (Service.clientId_of_contentKey hkey) hclients

/-! ### Every job belongs to the client that gets it -/

/-- No two calls that are going on clash. -/
def Apart (svc : Service) (c : UploadPool) : Prop :=
  ∀ i j r r', GoesOn c i r → GoesOn c j r' → ¬ Clash svc r r'

/-- The request clashes with no request that has a row. -/
def Clear (svc : Service) (r : Request) (w : UploadWorld) : Prop :=
  ∀ r' ∈ w.requests, w.HasJob r'.jobId → ¬ Clash svc r' r

/-- The ids of the requests are different. -/
def DistinctIds (w : UploadWorld) : Prop :=
  ∀ r ∈ w.requests, ∀ r' ∈ w.requests, r.jobId = r'.jobId → r = r'

/-- Every row is the row of a request. -/
def Scoped (svc : Service) (w : UploadWorld) : Prop :=
  ∀ row ∈ w.db.jobs, ∃ r ∈ w.requests, svc.Passes r ∧ row.upload = (svc.newJob r).upload

theorem Logged.distinctIds {c : UploadPool} (h : Logged c) : DistinctIds c.world :=
  fun _ hr _ hr' hid => h.request_eq hr hr' hid

/-- What a call knows about its request and its job. -/
def ScopedAt (svc : Service) (r : Request) : Stage → Prop
  | .start => True
  | .writing _ => True
  | .reject _ => True
  | .refresh => True
  | .found job => job.clientId = r.clientId
  | .announce job => job.clientId = r.clientId
  | .enqueue job => job.clientId = r.clientId
  | .ended (.ok (job, _)) => job.clientId = r.clientId
  | .ended (.error _) => True
  | _ => svc.Passes r

/-- A row with the key of a request belongs to its client. -/
theorem Clear.clientId_of_key (h : Clear svc r w) (hscoped : Scoped svc w) (hpasses : svc.Passes r)
    {row : ImportJob} (hrow : row ∈ w.db.jobs)
    (hkey : row.idempotencyKey = svc.idempotencyKey r) : row.clientId = r.clientId := by
  obtain ⟨r', hr', hpasses', hup⟩ := hscoped row hrow
  have hid : row.id = r'.jobId := congrArg (fun u => u.1) hup
  have hclient : row.clientId = r'.clientId := congrArg (fun u => u.2.1) hup
  have hkey' : row.idempotencyKey = svc.idempotencyKey r' := congrArg (fun u => u.2.2.2.2) hup
  by_contra hne
  rw [hclient] at hne
  exact h r' hr' ⟨row, hrow, hid⟩ (clash_of_key hpasses' hpasses hne (hkey'.symm.trans hkey))

theorem Owned.clientId (h : Owned svc r w) {row : ImportJob} (hrow : row ∈ w.db.jobs)
    (hid : row.id = r.jobId) : row.clientId = r.clientId :=
  congrArg (fun u => u.2.1) (h row hrow hid)

theorem Clear.clientId_of_jobByKey (h : Clear svc r w) (hscoped : Scoped svc w)
    (hpasses : svc.Passes r) {job : ImportJob}
    (hjob : w.jobByKey (svc.idempotencyKey r) = some job) : job.clientId = r.clientId :=
  h.clientId_of_key hscoped hpasses (List.mem_of_find?_eq_some hjob)
    (UploadWorld.key_of_jobByKey hjob)

/-- A move of a call that does not clash with the request. -/
theorem Clear.move {r₀ : Request} (h : Clear svc r w) (hids : DistinctIds w)
    (hr₀ : r₀ ∈ w.requests) (hclash : ¬ Clash svc r₀ r)
    (hmove : UploadMove svc r₀ o f w a w' a') : Clear svc r w' := by
  have hreq : w'.requests = w.requests := by
    rcases hmove.effect with rfl | ⟨content, rfl⟩ | ⟨-, -, -, -, rfl⟩ | ⟨-, -, -, rfl⟩
    all_goals rfl
  intro r' hr' hjob
  rw [hreq] at hr'
  rcases hmove.kept.new r'.jobId hjob with hold | hid
  · exact h r' hr' hold
  · rw [hids r' hr' r₀ hr₀ (Option.some.inj hid).symm]
    exact hclash

/-- What comes from outside brings no rows. -/
theorem Clear.arrive {x : UploadArrival}
    {p : Option (Request × Program UploadOp UploadOp.Ans (Except UploadExn (ImportJob × Bool)))}
    (h : Clear svc r w) (hx : x.apply svc w = some (w', p)) : Clear svc r w' := by
  have hkept := UploadArrival.kept hx
  intro r' hr' hjob
  have hold : w.HasJob r'.jobId := (hkept.new r'.jobId hjob).resolve_right nofun
  rcases UploadArrival.apply_cases hx with ⟨new, -, hu, -, rfl⟩ | ⟨stream, -, rfl, -⟩ |
    ⟨row, -, -, -, rfl⟩
  · rcases List.mem_append.mp hr' with hr' | hr'
    · exact h r' hr' hold
    · obtain ⟨hjobs, -⟩ := UploadWorld.unused_iff.mp hu
      obtain ⟨row, hrow, hid⟩ := hold
      rw [List.mem_singleton.mp hr'] at hid
      exact absurd hid (hjobs row hrow)
  · exact h r' hr' hold
  · exact h r' hr' hold

/-- A move of the call. -/
theorem ScopedAt.move (h : ScopedAt svc r a) (hscoped : Scoped svc w) (hown : Owned svc r w)
    (hclear : Clear svc r w) (hmove : UploadMove svc r o f w a w' a') : ScopedAt svc r a' := by
  cases hmove with
  | fail hask hf => trivial
  | ok hask hadv =>
    cases hadv with
    | mkdir => trivial
    | openWrite => trivial
    | read => trivial
    | tooLarge hlarge => trivial
    | empty hempty => trivial
    | complete hpasses => exact hpasses
    | write => trivial
    | reject => trivial
    | lookup =>
      cases hjob : w.jobByKey (svc.idempotencyKey r) with
      | none => exact h
      | some job => exact hclear.clientId_of_jobByKey hscoped h hjob
    | found => exact h
    | inserted hacc => trivial
    | conflict _ hconf => exact h
    | refused hstore => trivial
    | rollback => exact h
    | unlink => exact h
    | winner hjob => exact hclear.clientId_of_jobByKey hscoped h hjob
    | noWinner hjob => trivial
    | refresh hjob => exact hown.clientId (List.mem_of_find?_eq_some hjob) (Db.id_of_job hjob)
    | missing hjob => trivial
    | ensureGroup => exact h
    | xadd => exact h

theorem Scoped.move (h : Scoped svc w) (hat : ScopedAt svc r a) (hr : r ∈ w.requests)
    (hmove : UploadMove svc r o f w a w' a') : Scoped svc w' := by
  rcases hmove.effect with rfl | ⟨content, rfl⟩ | ⟨rfl, -, -, -, rfl⟩ | ⟨-, -, -, rfl⟩
  · exact h
  · exact h
  · intro row hrow
    rcases List.mem_append.mp hrow with hrow | hrow
    · exact h row hrow
    · rw [List.mem_singleton.mp hrow]
      exact ⟨r, hr, hat, rfl⟩
  · exact h

theorem Scoped.arrive {x : UploadArrival}
    {p : Option (Request × Program UploadOp UploadOp.Ans (Except UploadExn (ImportJob × Bool)))}
    (h : Scoped svc w) (hx : x.apply svc w = some (w', p)) : Scoped svc w' := by
  have hkept := UploadArrival.kept hx
  intro new hnew
  obtain ⟨old, hold, hup⟩ := hkept.upload new hnew nofun
  obtain ⟨r, hr, hpasses, hold'⟩ := h old hold
  refine ⟨r, ?_, hpasses, hup.symm.trans hold'⟩
  rcases UploadArrival.apply_cases hx with ⟨r', -, -, -, rfl⟩ | ⟨stream, -, rfl, -⟩ |
    ⟨row, -, -, -, rfl⟩
  · exact List.mem_append_left _ hr
  · exact hr
  · exact hr

/-- A call goes on only if it went on before or begins in this step. -/
theorem GoesOn.before {c d : UploadPool} {e : UploadEvent} {i : ℕ} (h : GoesOn d i r)
    (hn : (uploads svc).next c e = some d) : GoesOn c i r ∨ e = .arrive (.request r) := by
  obtain ⟨o, k, hi⟩ := h
  rcases System.next_cases hn with ⟨j, f, t, op, rest, -, hj, rfl⟩ | ⟨j, t, op, rest, -, hj, rfl⟩ |
    ⟨x, w, -, -, rfl⟩ | ⟨x, w, t, p, rfl, hx, rfl⟩
  · rcases getElem?_set_eq_some hi with ⟨rfl, heq⟩ | ⟨-, hi⟩
    · obtain rfl : r = t := congrArg Proc.tag heq
      exact .inl ⟨op, rest, hj⟩
    · exact .inl ⟨o, k, hi⟩
  · rcases getElem?_set_eq_some hi with ⟨rfl, heq⟩ | ⟨-, hi⟩
    · cases heq
    · exact .inl ⟨o, k, hi⟩
  · exact .inl ⟨o, k, hi⟩
  · obtain ⟨rfl, -⟩ := UploadArrival.request_of_apply hx
    rcases getElem?_concat_eq_some hi with ⟨-, heq⟩ | ⟨-, hi⟩
    · cases heq
      exact .inr rfl
    · exact .inl ⟨o, k, hi⟩

/-- Calls that are going on do not come to clash. -/
theorem Apart.next {c d : UploadPool} {e : UploadEvent} (h : Apart svc c) (hC : Separate svc c e)
    (hlogged : Logged c) (hn : (uploads svc).next c e = some d) : Apart svc d := by
  have hnew : ∀ {i : ℕ} {r r' : Request}, GoesOn c i r → e = .arrive (.request r') →
      ¬ Clash svc r r' := by
    rintro i r r' ⟨o, k, hi⟩ rfl
    exact hC r (hlogged.mem_requests hi) (.inr ⟨i, o, k, hi⟩)
  intro i j r r' hi hj
  rcases hi.before hn with hi | rfl
  · rcases hj.before hn with hj | he
    · exact h i j r r' hi hj
    · exact hnew hi he
  · rcases hj.before hn with hj | he
    · exact fun hc => hnew hj rfl hc.symm
    · cases he
      exact fun hc => hc.clients rfl

theorem Apart.empty : Apart svc ⟨w, []⟩ := by
  rintro i j r r' ⟨o, k, hi⟩
  cases hi

/-- The history is complete and the calls that are going on do not clash. -/
theorem Apart.reaches {C : UploadPool → UploadEvent → Prop} {c : UploadPool}
    (hC : ∀ c e, C c e → Separate svc c e) (hlog : w.requests = [])
    (hc : (uploads svc).Reaches C ⟨w, []⟩ c) :
    (uploads svc).Reaches (fun c e => C c e ∧ Logged c ∧ Apart svc c) ⟨w, []⟩ c ∧
      Logged c ∧ Apart svc c := by
  refine hc.strengthen ⟨⟨by rw [hlog]; rfl, by rw [hlog]; exact List.nodup_nil⟩, .empty⟩ ?_
  exact fun c e d h he hn => ⟨h.1.next hn, h.2.next (hC c e he) h.1 hn⟩

/-- The outline of the clients. -/
def scopeOutline (svc : Service) : Outline UploadWorld Request Stage where
  Inv := Scoped svc
  Loc r a w := Owned svc r w ∧ ScopedAt svc r a ∧ ((∀ x, a ≠ .ended x) → Clear svc r w)
  Guar _ _ := True

theorem Asks.not_ended (h : Asks svc r a o) : ∀ x, a ≠ .ended x := by
  rintro x rfl
  cases h

theorem scopeOutline_sound (svc : Service) :
    (scopeOutline svc).Sound (uploads svc)
      (fun c e => Separate svc c e ∧ Logged c ∧ Apart svc c)
      (UploadMove svc) fun _ x a => a = .ended x := by
  refine uploads_sound ?_ ?_
  · rintro c ph i r o k f a' hold ⟨-, hlogged, hapart⟩ hi hmove
    obtain ⟨hown, hat, hclear⟩ := hold.loc i r _ hi
    have hinv : Scoped svc c.world := hold.inv
    have hr : r ∈ c.world.requests := hlogged.mem_requests hi
    have hids := hlogged.distinctIds
    have hnow : Clear svc r c.world := hclear hmove.asks.not_ended
    refine ⟨hinv.move hat hr hmove, ⟨hown.move hmove, hat.move hinv hown hnow hmove, fun _ =>
      hnow.move hids hr (fun hc => hc.clients rfl) hmove⟩, trivial, fun j r' p' hji hj => ?_⟩
    obtain ⟨hown', hat', hclear'⟩ := hold.loc j r' p' hj
    have hne : r.jobId ≠ r'.jobId := fun heq => hji (hlogged.index_eq hi hj heq).symm
    refine ⟨hown'.kept hmove.kept (fun heq => hne (Option.some.inj heq)), hat', fun hphase => ?_⟩
    cases p' with
    | done x => exact absurd (hold.follows j r' _ hj) (hphase x)
    | call o' k' =>
      exact (hclear' hphase).move hids hr (hapart i j r r' ⟨o, k, hi⟩ ⟨o', k', hj⟩) hmove
  · rintro c ph x w p hold ⟨hsep, hlogged, -⟩ hx
    have hinv : Scoped svc c.world := hold.inv
    refine ⟨hinv.arrive hx, trivial, fun i r p hi => ?_, fun r q hp => ?_⟩
    · obtain ⟨hown, hat, hclear⟩ := hold.loc i r p hi
      exact ⟨hown.kept (UploadArrival.kept hx) nofun, hat, fun hphase => (hclear hphase).arrive hx⟩
    · subst hp
      obtain ⟨rfl, hu, -, hw⟩ := UploadArrival.request_of_apply hx
      obtain ⟨hjobs, -⟩ := UploadWorld.unused_iff.mp hu
      have hclear : Clear svc r c.world := fun r' hr' hjob => hsep r' hr' (.inl hjob)
      refine ⟨?_, ?_, fun _ => hclear.arrive hx⟩
      · subst hw
        exact fun row hrow hid => absurd hid (hjobs row hrow)
      · unfold Stage.initial
        split
        · trivial
        · trivial

/-! ### What a client can see -/

/-- The id belongs to a request of the client. -/
def UploadWorld.owns (w : UploadWorld) (client id : Uuid) : Bool :=
  w.requests.any fun r => decide (r.clientId = client ∧ r.jobId = id)

/-- The requests of the client. -/
def UploadWorld.requestsOf (w : UploadWorld) (client : Uuid) : List Request :=
  w.requests.filter fun r => decide (r.clientId = client)

/-- The rows of the client. -/
def UploadWorld.jobsOf (w : UploadWorld) (client : Uuid) : List ImportJob :=
  w.db.jobs.filter fun row => decide (row.clientId = client)

/-- The entries for jobs of the client. -/
def UploadWorld.entriesFor (w : UploadWorld) (client : Uuid) : Stream :=
  w.stream.filter fun x => w.owns client x.importJobId

/-- `v` is the part of `w` that the client can see: its requests, rows, entries and files. -/
structure View (svc : Service) (client : Uuid) (w v : UploadWorld) : Prop where
  requests : v.requests = w.requestsOf client
  jobs : v.db.jobs = w.jobsOf client
  stream : v.stream = w.entriesFor client
  own : ∀ path, (∀ r ∈ w.requests, r.clientId ≠ client → svc.storagePath r.jobId ≠ path) →
    v.files path = w.files path
  other : ∀ r ∈ w.requests, r.clientId ≠ client → v.files (svc.storagePath r.jobId) = none

theorem UploadWorld.owns_iff {id : Uuid} :
    w.owns client id = true ↔ ∃ r ∈ w.requests, r.clientId = client ∧ r.jobId = id := by
  simp only [owns, List.any_eq_true, decide_eq_true_eq]

theorem UploadWorld.owns_of_ne (hids : DistinctIds w) (hr : r ∈ w.requests)
    (hne : r.clientId ≠ client) : w.owns client r.jobId = false := by
  rw [Bool.eq_false_iff]
  intro howns
  obtain ⟨r', hr', hclient, hid⟩ := UploadWorld.owns_iff.mp howns
  rw [hids r' hr' r hr hid] at hclient
  exact hne hclient

section Views

variable {v : UploadWorld} {path : String} {content : Option (List UInt8)}

/-- The client changes its file. -/
theorem View.setFile (h : View svc client w v) (hids : DistinctIds w) (hr : r ∈ w.requests)
    (hclient : r.clientId = client) :
    View svc client (w.setFile (svc.storagePath r.jobId) content)
      (v.setFile (svc.storagePath r.jobId) content) := by
  refine ⟨h.requests, h.jobs, h.stream, fun path hpath => ?_, fun r' hr' hne => ?_⟩
  · by_cases heq : path = svc.storagePath r.jobId
    · have hself : ∀ u : UploadWorld, (u.setFile (svc.storagePath r.jobId) content).files
          (svc.storagePath r.jobId) = content := fun u => Function.update_self ..
      rw [heq, hself, hself]
    · refine (Function.update_of_ne heq ..).trans ?_
      exact (h.own path hpath).trans (Function.update_of_ne heq ..).symm
  · have hpath : svc.storagePath r'.jobId ≠ svc.storagePath r.jobId := by
      intro heq
      rw [hids r' hr' r hr (svc.storagePath_inj heq)] at hne
      exact hne hclient
    exact (Function.update_of_ne hpath ..).trans (h.other r' hr' hne)

/-- Another client changes its file. -/
theorem View.setFile_other (h : View svc client w v) (hr : r ∈ w.requests)
    (hne : r.clientId ≠ client) :
    View svc client (w.setFile (svc.storagePath r.jobId) content) v := by
  refine ⟨h.requests, h.jobs, h.stream, fun path hpath => ?_, h.other⟩
  refine (h.own path hpath).trans (Function.update_of_ne ?_ ..).symm
  exact (hpath r hr hne).symm

theorem View.insert (h : View svc client w v) (hclient : r.clientId = client) :
    View svc client (w.insert (svc.newJob r)) (v.insert (svc.newJob r)) := by
  refine ⟨h.requests, ?_, h.stream, h.own, h.other⟩
  have hrow : (w.insert (svc.newJob r)).jobsOf client = w.jobsOf client ++ [svc.newJob r] :=
    filter_concat_of_pos (decide_eq_true hclient)
  rw [hrow, ← h.jobs]
  rfl

theorem View.insert_other (h : View svc client w v) (hne : r.clientId ≠ client) :
    View svc client (w.insert (svc.newJob r)) v := by
  refine ⟨h.requests, ?_, h.stream, h.own, h.other⟩
  have hrow : (w.insert (svc.newJob r)).jobsOf client = w.jobsOf client :=
    filter_concat_of_neg (decide_eq_false hne)
  rw [hrow, ← h.jobs]

theorem View.xadd (h : View svc client w v) (hr : r ∈ w.requests) (hclient : r.clientId = client) :
    View svc client { w with stream := w.stream.xadd r.jobId }
      { v with stream := v.stream.xadd r.jobId } := by
  refine ⟨h.requests, h.jobs, ?_, h.own, h.other⟩
  have hentry : UploadWorld.entriesFor { w with stream := w.stream.xadd r.jobId } client =
      w.entriesFor client ++ [⟨r.jobId, .fresh⟩] :=
    filter_concat_of_pos (UploadWorld.owns_iff.mpr ⟨r, hr, hclient, rfl⟩)
  rw [hentry, ← h.stream]
  rfl

theorem View.xadd_other (h : View svc client w v) (hids : DistinctIds w) (hr : r ∈ w.requests)
    (hne : r.clientId ≠ client) :
    View svc client { w with stream := w.stream.xadd r.jobId } v := by
  refine ⟨h.requests, h.jobs, ?_, h.own, h.other⟩
  have hentry : UploadWorld.entriesFor { w with stream := w.stream.xadd r.jobId } client =
      w.entriesFor client :=
    filter_concat_of_neg (UploadWorld.owns_of_ne hids hr hne)
  rw [hentry, ← h.stream]

/-- An operation with an effect answers the same whatever the shared state is. -/
theorem View.apply (h : View svc client w v) {g : UploadWorld → UploadWorld}
    (hg : View svc client (g w) (g v)) (f : Fault) (e : UploadExn) :
    (f.apply e g v).2 = (f.apply e g w).2 ∧
    View svc client (f.apply e g w).1 (f.apply e g v).1 := by
  cases f with
  | ok => exact ⟨rfl, hg⟩
  | rejected => exact ⟨rfl, h⟩
  | failed => exact ⟨rfl, h⟩
  | lost => exact ⟨rfl, hg⟩

theorem View.query {β : Type} (h : View svc client w v)
    {answer : UploadWorld → Except UploadExn β} (hans : answer v = answer w) (f : Fault)
    (e : UploadExn) :
    (f.query e answer v).2 = (f.query e answer w).2 ∧
    View svc client (f.query e answer w).1 (f.query e answer v).1 := by
  cases f with
  | ok => exact ⟨hans, h⟩
  | rejected => exact ⟨rfl, h⟩
  | failed => exact ⟨rfl, h⟩
  | lost => exact ⟨rfl, h⟩

/-- A query for rows of the client finds the same row. -/
theorem View.find? (h : View svc client w v) {q : ImportJob → Bool}
    (hq : ∀ row ∈ w.db.jobs, q row = true → row.clientId = client) :
    v.db.jobs.find? q = w.db.jobs.find? q := by
  rw [h.jobs, UploadWorld.jobsOf, List.find?_filter]
  refine List.find?_congr fun row hrow => ?_
  cases hqrow : q row with
  | false => simp
  | true => simp [hq row hrow hqrow]

theorem View.any (h : View svc client w v) {q : ImportJob → Bool}
    (hq : ∀ row ∈ w.db.jobs, q row = true → row.clientId = client) :
    v.db.jobs.any q = w.db.jobs.any q := by
  rw [← List.isSome_find?, ← List.isSome_find?, h.find? hq]

/-- An operation of the client. -/
theorem View.exec (h : View svc client w v) (hscoped : Scoped svc w) (hclear : Clear svc r w)
    (hown : Owned svc r w) (hat : ScopedAt svc r a) (hids : DistinctIds w) (hr : r ∈ w.requests)
    (hclient : r.clientId = client) (hask : Asks svc r a o) (f : Fault) :
    (o.exec f v).2 = (o.exec f w).2 ∧ View svc client (o.exec f w).1 (o.exec f v).1 := by
  have hfile : v.files (svc.storagePath r.jobId) = w.files (svc.storagePath r.jobId) := by
    refine h.own _ fun r' hr' hne heq => hne ?_
    rw [hids r' hr' r hr (svc.storagePath_inj heq)]
    exact hclient
  have hlookup : svc.Passes r → v.jobByKey (svc.idempotencyKey r) =
      w.jobByKey (svc.idempotencyKey r) := by
    intro hpasses
    refine h.find? fun row hrow hkey => ?_
    exact (hclear.clientId_of_key hscoped hpasses hrow (of_decide_eq_true hkey)).trans hclient
  cases hask with
  | mkdir => exact h.apply h f _
  | openWrite => exact h.apply (h.setFile hids hr hclient) f _
  | readChunk => exact h.apply h f _
  | write =>
    refine h.apply ?_ f _
    rw [hfile]
    exact h.setFile hids hr hclient
  | reject => exact h.apply (h.setFile hids hr hclient) f _
  | lookup =>
    refine h.query ?_ f _
    rw [hlookup hat]
  | found => exact h.apply (h.setFile hids hr hclient) f _
  | insert =>
    have haccepts : v.accepts (svc.newJob r) = w.accepts (svc.newJob r) := by
      unfold UploadWorld.accepts UploadWorld.conflicts
      rw [h.any fun row hrow hcond => ?_]
      rcases of_decide_eq_true hcond with hid | hkey
      · exact (hown.clientId hrow hid).trans hclient
      · exact (hclear.clientId_of_key hscoped hat hrow hkey).trans hclient
    change (f.commitJob _ v).2 = (f.commitJob _ w).2 ∧
      View svc client (f.commitJob _ w).1 (f.commitJob _ v).1
    cases hacc : w.accepts (svc.newJob r) with
    | true =>
      rw [Fault.commitJob_of_accepts hacc, Fault.commitJob_of_accepts (haccepts.trans hacc)]
      exact h.apply (h.insert hclient) f _
    | false =>
      rw [Fault.commitJob_of_not_accepts hacc,
        Fault.commitJob_of_not_accepts (haccepts.trans hacc)]
      exact ⟨rfl, h⟩
  | raced => exact h.apply h f _
  | discard => exact h.apply (h.setFile hids hr hclient) f _
  | reselect =>
    refine h.query ?_ f _
    rw [hlookup hat]
  | refresh =>
    have hjob : v.db.job r.jobId = w.db.job r.jobId := by
      refine h.find? fun row hrow hid => ?_
      exact (hown.clientId hrow (of_decide_eq_true hid)).trans hclient
    refine h.query ?_ f _
    rw [hjob]
  | announce hid => exact h.apply h f _
  | enqueue hid => exact h.apply (h.xadd hr hclient) f _

/-- A move of another client. -/
theorem View.move_other (h : View svc client w v) (hids : DistinctIds w) (hr : r ∈ w.requests)
    (hne : r.clientId ≠ client) (hmove : UploadMove svc r o f w a w' a') : View svc client w' v := by
  rcases hmove.effect with rfl | ⟨content, rfl⟩ | ⟨-, -, -, -, rfl⟩ | ⟨-, -, -, rfl⟩
  · exact h
  · exact h.setFile_other hr hne
  · exact h.insert_other hne
  · exact h.xadd_other hids hr hne

/-- An id that is new is new to the client. -/
theorem View.unused (h : View svc client w v) {id : Uuid} (hu : w.unused svc id = true) :
    v.unused svc id = true ∧ v.files (svc.storagePath id) = none := by
  obtain ⟨hjobs, hstream, hfile, hreqs⟩ := UploadWorld.unused_iff.mp hu
  have hnone : v.files (svc.storagePath id) = none := by
    refine (h.own _ fun r hr _ heq => ?_).trans hfile
    exact hreqs r hr (svc.storagePath_inj heq)
  refine ⟨UploadWorld.unused_iff.mpr ⟨?_, ?_, hnone, ?_⟩, hnone⟩
  · rw [h.jobs]
    exact fun row hrow => hjobs row (List.mem_of_mem_filter hrow)
  · rw [h.stream]
    rintro ⟨x, hx, hid⟩
    exact hstream ⟨x, List.mem_of_mem_filter hx, hid⟩
  · rw [h.requests]
    exact fun r hr => hreqs r (List.mem_of_mem_filter hr)

/-- The entries for the client are the same entries when a new request arrives. -/
theorem entriesFor_request (hstream : ¬ w.stream.Enqueued r.jobId) :
    UploadWorld.entriesFor { w with requests := w.requests ++ [r] } client =
      w.entriesFor client := by
  refine List.filter_congr fun x hx => ?_
  have hne : ¬ (r.clientId = client ∧ r.jobId = x.importJobId) :=
    fun hcond => hstream ⟨x, hx, hcond.2.symm⟩
  rw [UploadWorld.owns, List.any_append, List.any_cons, decide_eq_false hne, List.any_nil,
    Bool.or_false, Bool.or_false]
  rfl

/-- The client sends a request. -/
theorem View.request (h : View svc client w v) (hu : w.unused svc r.jobId = true)
    (hclient : r.clientId = client) :
    View svc client { w with requests := w.requests ++ [r] }
      { v with requests := v.requests ++ [r] } := by
  obtain ⟨-, hstream, -, -⟩ := UploadWorld.unused_iff.mp hu
  refine ⟨?_, h.jobs, ?_, fun path hpath => ?_, fun r' hr' hne => ?_⟩
  · have hreq : UploadWorld.requestsOf { w with requests := w.requests ++ [r] } client =
        w.requestsOf client ++ [r] := filter_concat_of_pos (decide_eq_true hclient)
    rw [hreq, ← h.requests]
  · exact h.stream.trans (entriesFor_request hstream).symm
  · exact h.own path fun r' hr' => hpath r' (List.mem_append_left _ hr')
  · rcases List.mem_append.mp hr' with hr' | hr'
    · exact h.other r' hr' hne
    · rw [List.mem_singleton.mp hr'] at hne
      exact absurd hclient hne

/-- Another client sends a request. -/
theorem View.request_other (h : View svc client w v) (hu : w.unused svc r.jobId = true)
    (hne : r.clientId ≠ client) :
    View svc client { w with requests := w.requests ++ [r] } v := by
  obtain ⟨-, hstream, -, -⟩ := UploadWorld.unused_iff.mp hu
  refine ⟨?_, h.jobs, ?_, fun path hpath => ?_, fun r' hr' hne' => ?_⟩
  · have hreq : UploadWorld.requestsOf { w with requests := w.requests ++ [r] } client =
        w.requestsOf client := filter_concat_of_neg (decide_eq_false hne)
    rw [hreq, ← h.requests]
  · exact h.stream.trans (entriesFor_request hstream).symm
  · exact h.own path fun r' hr' => hpath r' (List.mem_append_left _ hr')
  · rcases List.mem_append.mp hr' with hr' | hr'
    · exact h.other r' hr' hne'
    · rw [List.mem_singleton.mp hr']
      exact (h.unused hu).2

end Views

/-! ### All histories -/

/-- The event comes from a request and not from a worker. -/
def Uploading : UploadEvent → Prop
  | .arrive (.request _) => True
  | .arrive _ => False
  | _ => True

/-- The request that an arrival starts. -/
def UploadArrival.requestOf : UploadArrival → Option Request
  | .request r => some r
  | _ => none

/-- The request is one of the client. -/
def Request.of (client : Uuid) (r : Request) : Bool := decide (r.clientId = client)

/-- What a history has of the client: its requests and the steps of its calls. -/
def ownEvents (client : Uuid) (es : List UploadEvent) : List UploadEvent :=
  System.purge UploadArrival.requestOf (Request.of client) [] es

/-- The invariant of the histories. -/
def ScopedPool (svc : Service) (c : UploadPool) : Prop :=
  Logged c ∧ Apart svc c ∧ ∃ ph, (scopeOutline svc).Holds (uploads svc) (UploadMove svc)
    (fun _ x a => a = .ended x) c ph

/-- The obligations of noninterference for the client. -/
theorem uploads_unwinding (svc : Service) (client : Uuid) :
    System.Unwinding (uploads svc) (fun c e => Separate svc c e ∧ Uploading e) (ScopedPool svc)
      UploadArrival.requestOf (Request.of client) (View svc client) where
  inv := by
    rintro c e d ⟨hlogged, hapart, ph, hold⟩ hC hn
    obtain ⟨hnext, -⟩ := (scopeOutline_sound svc).next hold ⟨hC.1, hlogged, hapart⟩ hn
    exact ⟨hlogged.next hn, hapart.next hC.1 hlogged hn, hnext⟩
  kept := by
    rintro c v i r o k f ⟨hlogged, -, ph, hold⟩ - hi hkeep hview
    obtain ⟨a', hmove, -⟩ := hold.follows i r _ hi f c.world
    obtain ⟨hown, hat, hclear⟩ := hold.loc i r _ hi
    exact hview.exec hold.inv (hclear hmove.asks.not_ended) hown hat hlogged.distinctIds (hlogged.mem_requests hi)
      (of_decide_eq_true hkeep) hmove.asks f
  dropped := by
    rintro c v i r o k f ⟨hlogged, -, ph, hold⟩ - hi hdrop hview
    obtain ⟨a', hmove, -⟩ := hold.follows i r _ hi f c.world
    exact hview.move_other hlogged.distinctIds (hlogged.mem_requests hi)
      (of_decide_eq_false hdrop) hmove
  start := by
    intro c v x w r p _ _ hx hview
    obtain ⟨rfl, hu, rfl, rfl⟩ := UploadArrival.request_of_apply hx
    refine ⟨rfl, fun hkeep => ?_, fun hdrop => hview.request_other hu (of_decide_eq_false hdrop)⟩
    refine ⟨_, ?_, hview.request hu (of_decide_eq_true hkeep)⟩
    change UploadArrival.apply svc v (.request r) = _
    rw [UploadArrival.apply, (hview.unused hu).1, cond_true]
  change := by
    intro c v x w _ hC hx hview
    rcases UploadArrival.apply_cases hx with ⟨r', -, -, hp, -⟩ | ⟨_, -, -, hstream⟩ |
      ⟨_, rfl, -, -, -⟩
    · cases hp
    · rcases hstream with ⟨entry, id, rfl, -⟩ | ⟨entry, rfl, -⟩
      · exact hC.2.elim
      · exact hC.2.elim
    · exact hC.2.elim

/-- Without clashes, idempotency is scoped to the client.  Whatever requests any number of clients
make, in any interleaving and with any failures, a call that returns a job returns one of its own
client, and two histories in which a client does the same end the same for this client: its calls
have returned the same, and its rows, its entries of the stream and its files are the same. -/
theorem idempotency_scoped_to_client (svc : Service) {w : UploadWorld} (hlog : w.requests = [])
    (hjobs : w.db.jobs = []) (hstream : w.stream = []) :
    (∀ c : UploadPool, (uploads svc).Reaches (Separate svc) ⟨w, []⟩ c →
      ∀ p ∈ c.procs, ∀ job existing, p.result = some (.ok (job, existing)) →
        job.clientId = p.tag.clientId) ∧
    ∀ (client : Uuid) (es es' : List UploadEvent) (c c' : UploadPool),
      (uploads svc).Performs (fun c e => Separate svc c e ∧ Uploading e) ⟨w, []⟩ es c →
      (uploads svc).Performs (fun c e => Separate svc c e ∧ Uploading e) ⟨w, []⟩ es' c' →
      ownEvents client es = ownEvents client es' →
      System.group (Request.of client) c = System.group (Request.of client) c' ∧
      c.world.jobsOf client = c'.world.jobsOf client ∧
      c.world.entriesFor client = c'.world.entriesFor client ∧
      ∀ r ∈ c.world.requestsOf client,
        c.world.files (svc.storagePath r.jobId) = c'.world.files (svc.storagePath r.jobId) := by
  have hscoped : Scoped svc w := by
    intro row hrow
    rw [hjobs] at hrow
    cases hrow
  have hempty : UploadsHold svc (scopeOutline svc) ⟨w, []⟩ fun _ => .start :=
    Outline.holds_empty hscoped _
  constructor
  · intro c hc p hp job existing hres
    obtain ⟨hc', -⟩ := Apart.reaches (fun _ _ he => he) hlog hc
    obtain ⟨⟨ph, hold⟩, -⟩ := (scopeOutline_sound svc).reaches hempty hc'
    obtain ⟨i, hi⟩ := List.mem_iff_getElem?.mp hp
    obtain ⟨hfinal, -, hat, -⟩ := hold.of_result hi hres
    rw [hfinal] at hat
    exact hat
  · intro client es es' c c' hes hes' hown
    have hlogged : Logged ⟨w, []⟩ := ⟨hlog, by rw [hlog]; exact List.nodup_nil⟩
    have hview : View svc client w w := by
      refine ⟨?_, ?_, ?_, fun _ _ => rfl, fun r hr => ?_⟩
      · rw [UploadWorld.requestsOf, hlog, List.filter_nil]
      · rw [UploadWorld.jobsOf, hjobs, List.filter_nil]
      · rw [UploadWorld.entriesFor, hstream, List.filter_nil]
      · rw [hlog] at hr
        cases hr
    obtain ⟨hgroup, v, hv, hv'⟩ :=
      (uploads_unwinding svc client).eq_of_purge hes hes' ⟨hlogged, .empty, _, hempty⟩ hview hown
    -- the client sees its own files as they are
    have hfiles : ∀ {c : UploadPool}, Logged c → View svc client c.world v →
        ∀ r ∈ v.requests, v.files (svc.storagePath r.jobId) =
          c.world.files (svc.storagePath r.jobId) := by
      intro c hc hv r hr
      rw [hv.requests] at hr
      obtain ⟨hr, hclient⟩ := List.mem_filter.mp hr
      refine hv.own _ fun r' hr' hne heq => hne ?_
      rw [hc.request_eq hr' hr (svc.storagePath_inj heq)]
      exact of_decide_eq_true hclient
    obtain ⟨-, hc⟩ := Logged.reaches hlog hes.reaches
    obtain ⟨-, hc'⟩ := Logged.reaches hlog hes'.reaches
    refine ⟨hgroup, hv.jobs.symm.trans hv'.jobs, hv.stream.symm.trans hv'.stream, fun r hr => ?_⟩
    rw [← hv.requests] at hr
    exact (hfiles hc hv r hr).symm.trans (hfiles hc' hv' r hr)

/-- A test for `Separate` and `Uploading`. -/
def separateTest (svc : Service) (c : UploadPool) : UploadEvent → Bool
  | .arrive (.request r) => c.world.requests.all fun r' => !decide (Clash svc r' r)
  | .arrive _ => false
  | _ => true

theorem separate_of_test {c : UploadPool} {e : UploadEvent} (h : separateTest svc c e = true) :
    Separate svc c e ∧ Uploading e := by
  match e, h with
  | .run i f, h => exact ⟨trivial, trivial⟩
  | .crash i, h => exact ⟨trivial, trivial⟩
  | .arrive (.request r), h =>
    refine ⟨fun r' hr' _ hclash => ?_, trivial⟩
    have hr := List.all_eq_true.mp h r' hr'
    rw [decide_eq_true hclash] at hr
    cases hr

/-- A client uploads a file with a key of its own while another client uploads the same file without
a header. -/
def sampleClients : List UploadEvent :=
  .arrive (.request (sampleRequest firstClient firstJob)) ::
    .arrive (.request { sampleRequest secondClient secondJob with idempotencyKeyHeader := none }) ::
    (uploadRuns 0 6 ++ uploadRuns 1 10 ++ uploadRuns 0 4)

/-- The first client is alone. -/
def sampleAlone : List UploadEvent :=
  .arrive (.request (sampleRequest firstClient firstJob)) :: uploadRuns 0 10

theorem sample_clients_separate :
    ∃ (c c' : UploadPool) (p : UploadProc) (job : ImportJob),
      (uploads sampleService).Performs (fun c e => Separate sampleService c e ∧ Uploading e)
        ⟨emptyUploads, []⟩ sampleClients c ∧
      (uploads sampleService).Performs (fun c e => Separate sampleService c e ∧ Uploading e)
        ⟨emptyUploads, []⟩ sampleAlone c' ∧
      c.procs.length = 2 ∧ p ∈ c.procs ∧ p.result = some (.ok (job, false)) ∧
      job.clientId = p.tag.clientId ∧
      System.group (Request.of firstClient) c = System.group (Request.of firstClient) c' ∧
      c.world.entriesFor firstClient = c'.world.entriesFor firstClient := by
  have hrun : ((uploads sampleService).perform (separateTest sampleService) ⟨emptyUploads, []⟩
      sampleClients).map (fun c => (c.procs.length, c.procs.any fun p =>
        (answerOf p).any fun y => !y.2)) = some (2, true) := by decide +kernel
  have halone : ((uploads sampleService).perform (separateTest sampleService) ⟨emptyUploads, []⟩
      sampleAlone).isSome = true := by decide +kernel
  obtain ⟨c, hc, hout⟩ := Option.map_eq_some_iff.mp hrun
  obtain ⟨c', hc'⟩ := Option.isSome_iff_exists.mp halone
  obtain ⟨hlen, hany⟩ := Prod.mk.inj hout
  obtain ⟨p, hp, hret⟩ := List.any_eq_true.mp hany
  obtain ⟨⟨job, existing⟩, hanswer, hnew⟩ := (Option.any_eq_true _ _).mp hret
  obtain rfl : existing = false := by simpa using hnew
  have hes := System.performs_of_perform (S := uploads sampleService)
    (fun _ _ => separate_of_test) hc
  have hes' := System.performs_of_perform (S := uploads sampleService)
    (fun _ _ => separate_of_test) hc'
  obtain ⟨hscoped, hsame⟩ :=
    idempotency_scoped_to_client sampleService (w := emptyUploads) rfl rfl rfl
  have hres := result_of_answerOf hanswer
  have hclient := hscoped c (hes.reaches.mono fun _ _ h => h.1) p hp job false hres
  obtain ⟨hgroup, -, hentries, -⟩ := hsame firstClient _ _ c c' hes hes' rfl
  exact ⟨c, c', p, job, hes, hes', hlen, hp, hres, hclient, hgroup, hentries⟩

/-- A test for requests and operations that succeed. -/
def faultless : UploadEvent → Bool
  | .run _ f => decide (f = .ok)
  | .arrive (.request _) => true
  | _ => false

/-- A job of another client is returned.  Two clients send the same header; both calls succeed, and
the second client gets the job of the first. -/
theorem foreign_job_returned :
    ∃ (c : UploadPool) (p : UploadProc) (job : ImportJob),
      (uploads sampleService).Reaches
        (fun _ e => (∃ i, e = .run i .ok) ∨ ∃ r, e = .arrive (.request r)) ⟨emptyUploads, []⟩ c ∧
      p ∈ c.procs ∧ p.result = some (.ok (job, true)) ∧
      p.tag.clientId = secondClient ∧ job.clientId = firstClient ∧ firstClient ≠ secondClient ∧
      c.world.jobsOf secondClient = [] := by
  have hrun : ((uploads sampleService).perform (fun _ => faultless) ⟨emptyUploads, []⟩
      (.arrive (.request (sampleRequest firstClient firstJob)) :: (uploadRuns 0 10 ++
        .arrive (.request (sampleRequest secondClient secondJob)) :: uploadRuns 1 7))).map
      (fun c => (c.procs.any fun p => (answerOf p).any fun y =>
        y.2 && decide (p.tag.clientId = secondClient ∧ y.1.clientId = firstClient),
        (c.world.jobsOf secondClient).length)) = some (true, 0) := by
    decide +kernel
  obtain ⟨c, hc, hout⟩ := Option.map_eq_some_iff.mp hrun
  obtain ⟨hany, hnone⟩ := Prod.mk.inj hout
  obtain ⟨p, hp, hret⟩ := List.any_eq_true.mp hany
  obtain ⟨⟨job, existing⟩, hanswer, hy⟩ := (Option.any_eq_true _ _).mp hret
  rw [Bool.and_eq_true, decide_eq_true_iff] at hy
  obtain ⟨rfl, hsecond, hfirst⟩ := hy
  refine ⟨c, p, job, System.reaches_of_perform (fun c e he => ?_) hc, hp,
    result_of_answerOf hanswer, hsecond, hfirst, by decide, List.length_eq_zero_iff.mp hnone⟩
  match e, he with
  | .run i f, he => exact .inl ⟨i, congrArg _ (of_decide_eq_true he)⟩
  | .arrive (.request r), he => exact .inr ⟨r, rfl⟩

end TransactionPlatform
