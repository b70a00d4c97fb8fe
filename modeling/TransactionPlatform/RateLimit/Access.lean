import TransactionPlatform.Foundation.Machine
import TransactionPlatform.RateLimit.Headers

/-!
# Access to the API

`app/core/security.py`, `scripts/create_client.py` and the dependency `rate_limited_client` that the
endpoints share: a request shows a key, the key names a client, and the client has a quota.

The script prints a key once and stores its hash.  Nothing in the repository changes `is_active`; an
operator does.
-/

namespace TransactionPlatform

/-- A row of the table `clients`. -/
structure Client where
  id : Uuid
  name : String
  apiKeyHash : String
  isActive : Bool
  deriving DecidableEq

/-- The exceptions of `get_current_client`. -/
inductive AuthExn where
  | HTTPException (status : ℕ) (detail : String)
  | DBAPIError
  deriving DecidableEq

section Program

variable (hashApiKey : String → String)

/-- `get_current_client`; the unique constraint on `api_key_hash` leaves at most one row. -/
def getCurrentClient (clients : List Client) (xApiKey : Option String) (f : Fault) :
    Except AuthExn Client :=
  match xApiKey.filter fun key => decide (key ≠ "") with
  | none => .error (.HTTPException 401 "Missing X-API-Key header")
  | some key =>
    if f ≠ .ok then .error .DBAPIError
    else
      match clients.find? fun row => decide (row.apiKeyHash = hashApiKey key) with
      | none => .error (.HTTPException 401 "Invalid or inactive API key")
      | some client =>
        if client.isActive = true then .ok client
        else .error (.HTTPException 401 "Invalid or inactive API key")

/-- `raw_key` of `scripts/create_client.py`. -/
def rawKey (token : String) : String := "tp_" ++ token

/-- The clients and the keys of Redis.  `issued` is the history of the keys that have been stored with
the clients they were made for; the code does not read it. -/
structure AccessWorld where
  clients : List Client
  redis : Redis
  issued : List (String × Uuid)

/-- A request, as far as the dependencies of the endpoints look at it: the header, the fate of the
query, and what `check` reads and meets. -/
structure AccessRequest where
  xApiKey : Option String
  query : Fault
  time : ℤ
  nowMs : ℤ
  objectId : ℕ
  script : Fault

/-- What happens to clients and quotas. -/
inductive AccessEvent where
  /-- `scripts/create_client.py`; `id` is what `uuid.uuid4()` returns. -/
  | create (id : Uuid) (name token : String) (f : Fault)
  /-- An operator changes `is_active`. -/
  | setActive (id : Uuid) (isActive : Bool)
  | request (r : AccessRequest)

/-- The row that the script inserts. -/
def newClient (id : Uuid) (name token : String) : Client :=
  ⟨id, name, hashApiKey (rawKey token), true⟩

/-- The script inserts its row, unless its hash is there already or the commit fails. -/
def AccessWorld.create (w : AccessWorld) (id : Uuid) (name token : String) (f : Fault) :
    AccessWorld :=
  if (f = .ok ∨ f = .lost) ∧ ∀ row ∈ w.clients, row.apiKeyHash ≠ hashApiKey (rawKey token) then
    { w with
      clients := w.clients ++ [newClient hashApiKey id name token]
      issued := w.issued ++ [(rawKey token, id)] }
  else w

/-- The call of `check` for the client. -/
def AccessRequest.check (r : AccessRequest) (client : Client) : Check :=
  ⟨client.id.text, r.time, r.nowMs, r.objectId⟩

/-- `get_current_client` and `rate_limited_client`: the keys of Redis after the request, and whether
the endpoint is called. -/
def AccessWorld.authorize (limiter : RateLimiter) (w : AccessWorld) (r : AccessRequest) :
    Redis × Except (AuthExn ⊕ RateLimitError) Client :=
  match getCurrentClient hashApiKey w.clients r.xApiKey r.query with
  | .error e => (w.redis, .error (.inl e))
  | .ok client =>
    let x := rateLimitedClient limiter w.redis (r.check client) r.script
    (x.1, (x.2.mapError Sum.inr).map fun _ => client)

/-- The effect of an event.  The result of `uuid4` is new. -/
def AccessWorld.next (limiter : RateLimiter) (w : AccessWorld) : AccessEvent → Option AccessWorld
  | .create id name token f =>
    if ∀ row ∈ w.clients, row.id ≠ id then some (w.create hashApiKey id name token f) else none
  | .setActive id isActive =>
    some { w with clients := w.clients.map fun row =>
      if row.id = id then { row with isActive := isActive } else row }
  | .request r => some { w with redis := (w.authorize hashApiKey limiter r).1 }

/-- The clients, the operator and the requests. -/
def access (limiter : RateLimiter) : Machine AccessWorld AccessEvent where
  next w e := w.next hashApiKey limiter e

end Program

/-- No client has been created. -/
def AccessWorld.start : AccessWorld := ⟨[], fun _ => .absent, []⟩

/-! ### The rows and the keys that were issued -/

/-- Every row has the hash of the key that was made for it. -/
structure Registered (hashApiKey : String → String) (w : AccessWorld) : Prop where
  rows : ∀ row ∈ w.clients, ∃ token, (rawKey token, row.id) ∈ w.issued ∧
    row.apiKeyHash = hashApiKey (rawKey token)
  keys : ∀ p ∈ w.issued, ∃ row ∈ w.clients, row.id = p.2 ∧ row.apiKeyHash = hashApiKey p.1
  ids : (w.clients.map Client.id).Nodup
  hashes : (w.clients.map Client.apiKeyHash).Nodup

section Invariant

variable {hashApiKey : String → String} {limiter : RateLimiter} {w w' : AccessWorld}

theorem registered_start : Registered hashApiKey .start where
  rows _ h := by cases h
  keys _ h := by cases h
  ids := List.nodup_nil
  hashes := List.nodup_nil

theorem Registered.create (h : Registered hashApiKey w) {id : Uuid}
    (hid : ∀ row ∈ w.clients, row.id ≠ id) (name token : String) (f : Fault) :
    Registered hashApiKey (w.create hashApiKey id name token f) := by
  unfold AccessWorld.create
  split
  · next hnew =>
    refine ⟨fun row hrow => ?_, fun p hp => ?_, ?_, ?_⟩
    · rcases List.mem_append.mp hrow with hrow | hrow
      · obtain ⟨token', hissued, hhash⟩ := h.rows row hrow
        exact ⟨token', List.mem_append_left _ hissued, hhash⟩
      · rw [List.mem_singleton.mp hrow]
        exact ⟨token, List.mem_append_right _ List.mem_cons_self, rfl⟩
    · rcases List.mem_append.mp hp with hp | hp
      · obtain ⟨row, hrow, hkey⟩ := h.keys p hp
        exact ⟨row, List.mem_append_left _ hrow, hkey⟩
      · rw [List.mem_singleton.mp hp]
        exact ⟨_, List.mem_append_right _ List.mem_cons_self, rfl, rfl⟩
    · rw [List.map_append]
      refine List.nodup_append.mpr ⟨h.ids, List.pairwise_singleton _ _, fun a ha b hb => ?_⟩
      obtain ⟨row, hrow, rfl⟩ := List.mem_map.mp ha
      rw [List.mem_singleton.mp hb]
      exact hid row hrow
    · rw [List.map_append]
      refine List.nodup_append.mpr ⟨h.hashes, List.pairwise_singleton _ _, fun a ha b hb => ?_⟩
      obtain ⟨row, hrow, rfl⟩ := List.mem_map.mp ha
      rw [List.mem_singleton.mp hb]
      exact hnew.2 row hrow
  · exact h

/-- Only `is_active` changes. -/
theorem Registered.map {g : Client → Client} (h : Registered hashApiKey w)
    (hg : ∀ row, (g row).id = row.id ∧ (g row).apiKeyHash = row.apiKeyHash) :
    Registered hashApiKey { w with clients := w.clients.map g } := by
  refine ⟨fun row hrow => ?_, fun p hp => ?_, ?_, ?_⟩
  · obtain ⟨old, hold, rfl⟩ := List.mem_map.mp hrow
    rw [(hg old).1, (hg old).2]
    exact h.rows old hold
  · obtain ⟨row, hrow, hid, hhash⟩ := h.keys p hp
    exact ⟨g row, List.mem_map_of_mem hrow, (hg row).1.trans hid, (hg row).2.trans hhash⟩
  · show ((w.clients.map g).map Client.id).Nodup
    rw [List.map_map]
    exact (List.map_congr_left fun row _ => (hg row).1) ▸ h.ids
  · show ((w.clients.map g).map Client.apiKeyHash).Nodup
    rw [List.map_map]
    exact (List.map_congr_left fun row _ => (hg row).2) ▸ h.hashes

/-- One event keeps the invariant. -/
theorem Registered.next {e : AccessEvent} (h : Registered hashApiKey w)
    (hn : (access hashApiKey limiter).next w e = some w') : Registered hashApiKey w' := by
  cases e with
  | create id name token f =>
    change (if _ then _ else _) = some w' at hn
    split at hn
    · next hid =>
      cases hn
      exact h.create hid name token f
    · cases hn
  | setActive id isActive =>
    cases hn
    refine h.map fun row => ?_
    split
    · exact ⟨rfl, rfl⟩
    · exact ⟨rfl, rfl⟩
  | request r =>
    cases hn
    exact ⟨h.rows, h.keys, h.ids, h.hashes⟩

theorem Registered.reaches {C : AccessWorld → AccessEvent → Prop} (h : Registered hashApiKey w)
    (hw : (access hashApiKey limiter).Reaches C w w') : Registered hashApiKey w' :=
  (hw.strengthen h fun _ _ _ h _ hn => h.next hn).2

theorem rawKey_ne_empty (token : String) : rawKey token ≠ "" := by
  intro h
  have hlen := congrArg String.length h
  unfold rawKey at hlen
  rw [String.length_append] at hlen
  exact absurd hlen (Nat.ne_of_gt (Nat.lt_of_lt_of_le (by decide) (Nat.le_add_right _ _)))

theorem Uuid.text_inj {a b : Uuid} (h : a.text = b.text) : a = b := by
  cases a
  cases b
  cases h
  rfl

/-- What `get_current_client` has found, and what it raises. -/
theorem getCurrentClient_cases (hashApiKey : String → String) (clients : List Client)
    (xApiKey : Option String) (f : Fault) :
    (∃ client key, getCurrentClient hashApiKey clients xApiKey f = .ok client ∧
      xApiKey = some key ∧ client ∈ clients ∧ client.apiKeyHash = hashApiKey key ∧
      client.isActive = true) ∨
    ∃ e, getCurrentClient hashApiKey clients xApiKey f = .error e ∧
      (f = .ok → ∃ detail, e = .HTTPException 401 detail) := by
  unfold getCurrentClient
  split
  · exact .inr ⟨_, rfl, fun _ => ⟨_, rfl⟩⟩
  · next key hkey =>
    obtain ⟨hsome, -⟩ := Option.filter_eq_some_iff.mp hkey
    split
    · next hf => exact .inr ⟨_, rfl, fun h => absurd h hf⟩
    · split
      · exact .inr ⟨_, rfl, fun _ => ⟨_, rfl⟩⟩
      · next client hfind =>
        split
        · next hactive =>
          have hhash := List.find?_some hfind
          exact .inl ⟨client, key, rfl, hsome, List.mem_of_find?_eq_some hfind,
            of_decide_eq_true hhash, hactive⟩
        · exact .inr ⟨_, rfl, fun _ => ⟨_, rfl⟩⟩

/-- No other key that was issued has the hash of the key that is shown. -/
def NoCollision (hashApiKey : String → String) (w : AccessWorld) (key : String) : Prop :=
  ∀ p ∈ w.issued, hashApiKey p.1 = hashApiKey key → p.1 = key

/-- The client that is found is the one the key was made for. -/
theorem Registered.issued_of_hash (h : Registered hashApiKey w) {key : String}
    (hcollision : NoCollision hashApiKey w key) {client : Client} (hmem : client ∈ w.clients)
    (hhash : client.apiKeyHash = hashApiKey key) :
    (key, client.id) ∈ w.issued ∧ ∃ token, key = rawKey token := by
  obtain ⟨token, hissued, hhash'⟩ := h.rows client hmem
  obtain rfl : rawKey token = key := hcollision _ hissued (hhash'.symm.trans hhash)
  exact ⟨hissued, token, rfl⟩

/-- A key of an active client is accepted. -/
theorem Registered.getCurrentClient_of_issued (h : Registered hashApiKey w) {key : String}
    (hcollision : NoCollision hashApiKey w key) {id : Uuid} (hissued : (key, id) ∈ w.issued)
    {row : Client} (hrow : row ∈ w.clients) (hid : row.id = id) (hactive : row.isActive = true) :
    getCurrentClient hashApiKey w.clients (some key) .ok = .ok row := by
  have hhash : row.apiKeyHash = hashApiKey key := by
    obtain ⟨row', hrow', hid', hhash⟩ := h.keys _ hissued
    obtain rfl := List.inj_on_of_nodup_map h.ids hrow hrow' (hid.trans hid'.symm)
    exact hhash
  obtain ⟨-, token, rfl⟩ := h.issued_of_hash hcollision hrow hhash
  have hfind : (w.clients.find? fun row => decide (row.apiKeyHash = hashApiKey (rawKey token))) =
      some row := by
    cases hfind : w.clients.find? fun row =>
        decide (row.apiKeyHash = hashApiKey (rawKey token)) with
    | none => exact absurd (decide_eq_true hhash) (List.find?_eq_none.mp hfind row hrow)
    | some client =>
      have hsame := List.find?_some hfind
      rw [List.inj_on_of_nodup_map h.hashes (List.mem_of_find?_eq_some hfind) hrow
        ((of_decide_eq_true hsame).trans hhash.symm)]
  have hkey : (some (rawKey token)).filter (fun key => decide (key ≠ "")) = some (rawKey token) :=
    Option.filter_eq_some_iff.mpr ⟨rfl, decide_eq_true (rawKey_ne_empty token)⟩
  unfold getCurrentClient
  rw [hkey]
  show (if Fault.ok ≠ .ok then _ else _) = _
  rw [if_neg (not_not.mpr rfl), hfind]
  exact if_pos hactive

end Invariant

/-- In every run of the script, the operator and the requests: a key opens the API for a client
exactly if it was made for that client and the client is active, and every other key is answered 401,
as long as no two keys have one hash. -/
theorem key_opens_its_client_only (hashApiKey : String → String) (limiter : RateLimiter)
    {w : AccessWorld} (hw : (access hashApiKey limiter).Reaches (fun _ _ => True) .start w)
    (key : String) (hcollision : NoCollision hashApiKey w key) (id : Uuid) :
    ((∃ client, getCurrentClient hashApiKey w.clients (some key) .ok = .ok client ∧
        client.id = id) ↔
      (key, id) ∈ w.issued ∧ ∃ row ∈ w.clients, row.id = id ∧ row.isActive = true) ∧
    ∀ e, getCurrentClient hashApiKey w.clients (some key) .ok = .error e →
      ∃ detail, e = .HTTPException 401 detail := by
  have hreg : Registered hashApiKey w := registered_start.reaches hw
  refine ⟨⟨?_, ?_⟩, ?_⟩
  · rintro ⟨client, hok, rfl⟩
    rcases getCurrentClient_cases hashApiKey w.clients (some key) .ok with
      ⟨client', key', hok', hkey, hmem, hhash, hactive⟩ | ⟨e, herr, -⟩
    · cases hok.symm.trans hok'
      cases hkey
      exact ⟨(hreg.issued_of_hash hcollision hmem hhash).1, client, hmem, rfl, hactive⟩
    · cases hok.symm.trans herr
  · rintro ⟨hissued, row, hrow, hid, hactive⟩
    exact ⟨row, hreg.getCurrentClient_of_issued hcollision hissued hrow hid hactive, hid⟩
  · intro e he
    rcases getCurrentClient_cases hashApiKey w.clients (some key) .ok with
      ⟨client, key', hok, -⟩ | ⟨e', herr, h⟩
    · cases he.symm.trans hok
    · cases he.symm.trans herr
      exact h rfl

/-! ### Two clients -/

def firstToken : String := "Q2xpZW50IG9uZSBrZXksIDMyIGJ5dGVzIGxvbmchIS0"

def secondToken : String := "Q2xpZW50IHR3byBrZXksIDMyIGJ5dGVzIGxvbmchIS0"

/-- SHA-256 on the keys of the two clients. -/
def sampleHash (key : String) : String :=
  if key = rawKey firstToken then
    "c89fc4cb62c957ea7e7fa7bc0424f1df41d54efdac5a3d1e313dd80c1428712d"
  else "2959aa05a6ef964cc99615afbf2f3ab38b98e747fddbb224009d0fd57b97d213"

def sampleFirst : Uuid := ⟨"00000000-0000-4000-8000-0000000000e1", by decide⟩

def sampleSecond : Uuid := ⟨"00000000-0000-4000-8000-0000000000e2", by decide⟩

/-- The script has created the two clients. -/
def sampleAccess : AccessWorld :=
  ⟨[newClient sampleHash sampleFirst "first" firstToken,
      newClient sampleHash sampleSecond "second" secondToken],
    fun _ => .absent, [(rawKey firstToken, sampleFirst), (rawKey secondToken, sampleSecond)]⟩

theorem reaches_sampleAccess :
    (access sampleHash ⟨100⟩).Reaches (fun _ _ => True) .start sampleAccess := by
  have hfirst : (access sampleHash ⟨100⟩).Reaches (fun _ _ => True) .start
      ⟨[newClient sampleHash sampleFirst "first" firstToken], fun _ => .absent,
        [(rawKey firstToken, sampleFirst)]⟩ :=
    .single (e := .create sampleFirst "first" firstToken .ok) trivial rfl
  exact hfirst.tail (e := .create sampleSecond "second" secondToken .ok) trivial rfl

theorem noCollision_sampleAccess : NoCollision sampleHash sampleAccess (rawKey secondToken) := by
  unfold NoCollision
  decide

theorem sample_key_opens_its_client :
    ∃ client, getCurrentClient sampleHash sampleAccess.clients (some (rawKey secondToken)) .ok =
      .ok client ∧ client.id = sampleSecond :=
  (key_opens_its_client_only sampleHash ⟨100⟩ reaches_sampleAccess (rawKey secondToken)
    noCollision_sampleAccess sampleSecond).1.mpr ⟨by decide, _, List.mem_cons_of_mem _
      List.mem_cons_self, rfl, rfl⟩

/-- Nobody shows a key that was made for the client. -/
def Foreign (hashApiKey : String → String) (id : Uuid) (w : AccessWorld) : AccessEvent → Prop
  | .request r => ∀ key, r.xApiKey = some key → NoCollision hashApiKey w key ∧ (key, id) ∉ w.issued
  | _ => True

/-- The quota of a client is used up only by requests that show its key: in every run without such a
request, whatever else is asked for and whatever fails, what Redis holds for the client stays as it
is. -/
theorem quota_needs_the_key (hashApiKey : String → String) (limiter : RateLimiter)
    {w w' : AccessWorld} (hw : (access hashApiKey limiter).Reaches (fun _ _ => True) .start w)
    (id : Uuid) (hw' : (access hashApiKey limiter).Reaches (Foreign hashApiKey id) w w') :
    w'.redis (limitKey id.text) = w.redis (limitKey id.text) := by
  have hreg : Registered hashApiKey w := registered_start.reaches hw
  refine (hw'.strengthen (P := fun v => Registered hashApiKey v ∧
    v.redis (limitKey id.text) = w.redis (limitKey id.text)) ⟨hreg, rfl⟩ ?_).2.2
  rintro v e v' ⟨hv, hsame⟩ hforeign hn
  refine ⟨hv.next hn, ?_⟩
  cases e with
  | create id' name token f =>
    change (if _ then _ else _) = some v' at hn
    split at hn
    · cases hn
      unfold AccessWorld.create
      split
      · exact hsame
      · exact hsame
    · cases hn
  | setActive id' isActive =>
    cases hn
    exact hsame
  | request r =>
    cases hn
    show (v.authorize hashApiKey limiter r).1 (limitKey id.text) = _
    unfold AccessWorld.authorize
    rcases getCurrentClient_cases hashApiKey v.clients r.xApiKey r.query with
      ⟨client, key, hok, hkey, hmem, hhash, -⟩ | ⟨e, herr, -⟩
    · obtain ⟨hcollision, hnot⟩ := hforeign key hkey
      have hne : client.id.text ≠ id.text := fun htext =>
        hnot (Uuid.text_inj htext ▸ (hv.issued_of_hash hcollision hmem hhash).1)
      rw [hok]
      exact (rateLimitedClient_key_of_ne (c := ⟨r.check client, r.script⟩) hne).trans hsame
    · rw [herr]
      exact hsame

/-- The second client makes a request; the quota of the first one is untouched. -/
theorem sample_quota_needs_the_key :
    ∃ w', (access sampleHash ⟨100⟩).Reaches (Foreign sampleHash sampleFirst) sampleAccess w' ∧
      w'.redis (limitKey sampleFirst.text) = sampleAccess.redis (limitKey sampleFirst.text) := by
  have hforeign : Foreign sampleHash sampleFirst sampleAccess
      (.request ⟨some (rawKey secondToken), .ok, 1000, 1000, 1, .ok⟩) := by
    rintro key ⟨⟩
    exact ⟨noCollision_sampleAccess, by decide⟩
  have hreach := Machine.Reaches.single (M := access sampleHash ⟨100⟩) hforeign rfl
  exact ⟨_, hreach, quota_needs_the_key sampleHash ⟨100⟩ reaches_sampleAccess sampleFirst hreach⟩

end TransactionPlatform
