import TransactionPlatform.Models

/-!
# The import stream

`app/redis_utils/queue.py` over a Redis stream with one consumer group.  An entry is identified by
its position in the stream.  `XREADGROUP` hands out an entry that was never delivered and
`XAUTOCLAIM` one that has been pending for a while; since nothing refreshes the idle time of an
entry, any pending entry may be handed out again at any moment, and both are `claim`.  Only `XACK`
removes an entry from the pending list, and nothing trims the stream.
-/

namespace TransactionPlatform

/-- What the consumer group knows about an entry: never delivered, in the pending list, or
acknowledged. -/
inductive Delivery where
  | fresh
  | pending
  | acked
  deriving DecidableEq, Repr

/-- One entry of the stream: the field `import_job_id` and the state of its delivery. -/
structure StreamEntry where
  importJobId : Uuid
  delivery : Delivery
  deriving DecidableEq

/-- The entries of `import_jobs_stream`, oldest first. -/
abbrev Stream := List StreamEntry

namespace Stream

/-- `XADD`, the effect of `enqueue_import_job`. -/
def xadd (s : Stream) (id : Uuid) : Stream := s ++ [⟨id, .fresh⟩]

/-- `XREADGROUP` or `XAUTOCLAIM` of the entry `e`: it becomes pending and its job id is handed to
the worker. -/
def claim (s : Stream) (e : ℕ) : Option (Stream × Uuid) :=
  match s[e]? with
  | some ⟨id, .fresh⟩ => some (s.set e ⟨id, .pending⟩, id)
  | some ⟨id, .pending⟩ => some (s, id)
  | _ => none

/-- `XACK`, the effect of `ack_job`. -/
def xack (s : Stream) (e : ℕ) : Stream :=
  match s[e]? with
  | some ⟨id, .pending⟩ => s.set e ⟨id, .acked⟩
  | _ => s

/-- The job was enqueued: some entry carries its id. -/
def Enqueued (s : Stream) (id : Uuid) : Prop := ∃ x ∈ s, x.importJobId = id

/-- Some entry of the job is not acknowledged, so a worker can still pick it up. -/
def Unacked (s : Stream) (id : Uuid) : Prop := ∃ x ∈ s, x.importJobId = id ∧ x.delivery ≠ .acked

instance (s : Stream) (id : Uuid) : Decidable (s.Enqueued id) :=
  inferInstanceAs (Decidable (∃ x ∈ s, x.importJobId = id))

instance (s : Stream) (id : Uuid) : Decidable (s.Unacked id) :=
  inferInstanceAs (Decidable (∃ x ∈ s, x.importJobId = id ∧ x.delivery ≠ .acked))

variable {s s' : Stream} {e : ℕ} {id : Uuid}

/-- An entry that is handed out was not acknowledged and is pending afterwards; the other entries
are as before. -/
theorem claim_eq_some (h : s.claim e = some (s', id)) :
    (∃ x, s[e]? = some ⟨id, x⟩ ∧ x ≠ .acked) ∧ s'[e]? = some ⟨id, .pending⟩ ∧
      ∀ i, i ≠ e → s'[i]? = s[i]? := by
  simp only [claim] at h
  split at h
  · next id' hs =>
    obtain ⟨hlt, -⟩ := List.getElem?_eq_some_iff.mp hs
    simp only [Option.some.injEq, Prod.mk.injEq] at h
    obtain ⟨rfl, rfl⟩ := h
    exact ⟨⟨.fresh, hs, by simp⟩, by simp [hlt], fun i hi => List.getElem?_set_ne (Ne.symm hi)⟩
  · next id' hs =>
    simp only [Option.some.injEq, Prod.mk.injEq] at h
    obtain ⟨rfl, rfl⟩ := h
    exact ⟨⟨.pending, hs, by simp⟩, hs, fun i hi => rfl⟩
  · cases h

/-- An entry that is not acknowledged can be handed out. -/
theorem exists_claim {x : Delivery} (h : s[e]? = some ⟨id, x⟩) (hx : x ≠ .acked) :
    ∃ s', s.claim e = some (s', id) := by
  unfold claim
  rw [h]
  cases x with
  | fresh => exact ⟨_, rfl⟩
  | pending => exact ⟨_, rfl⟩
  | acked => exact absurd rfl hx

/-- An acknowledged entry is never handed out again. -/
theorem claim_acked (h : s[e]? = some ⟨id, .acked⟩) : s.claim e = none := by
  unfold claim
  rw [h]

/-- The acknowledgement of a pending entry. -/
theorem xack_pending (h : s[e]? = some ⟨id, .pending⟩) : (s.xack e)[e]? = some ⟨id, .acked⟩ := by
  obtain ⟨hlt, -⟩ := List.getElem?_eq_some_iff.mp h
  unfold xack
  rw [h]
  simp [hlt]

/-- Acknowledging an entry changes no id and no other entry. -/
theorem getElem?_xack {i : ℕ} {x : StreamEntry} (h : s[i]? = some x) :
    ∃ y, (s.xack e)[i]? = some ⟨x.importJobId, y⟩ ∧ (i ≠ e → y = x.delivery) := by
  unfold xack
  split
  · next id' hs =>
    obtain ⟨hlt, -⟩ := List.getElem?_eq_some_iff.mp hs
    by_cases hi : i = e
    · subst hi
      rw [hs] at h
      cases h
      exact ⟨.acked, by simp [hlt], fun hne => absurd rfl hne⟩
    · rw [List.getElem?_set_ne (Ne.symm hi)]
      exact ⟨x.delivery, h, fun _ => rfl⟩
  · exact ⟨x.delivery, h, fun _ => rfl⟩

/-- Handing out an entry changes no id. -/
theorem getElem?_claim {i : ℕ} {x : StreamEntry} (hc : s.claim e = some (s', id))
    (h : s[i]? = some x) :
    ∃ y, s'[i]? = some ⟨x.importJobId, y⟩ ∧ (x.delivery ≠ .acked → y ≠ .acked) := by
  obtain ⟨⟨z, hs, -⟩, hs', hother⟩ := claim_eq_some hc
  by_cases hi : i = e
  · subst hi
    rw [hs] at h
    cases h
    exact ⟨.pending, hs', by simp⟩
  · exact ⟨x.delivery, (hother i hi).trans h, fun hx => hx⟩

theorem mem_xack {x : StreamEntry} (h : x ∈ s.xack e) : ∃ x' ∈ s, x'.importJobId = x.importJobId := by
  unfold xack at h
  split at h
  · next id hs =>
    rcases List.mem_or_eq_of_mem_set h with h | rfl
    · exact ⟨x, h, rfl⟩
    · exact ⟨_, List.mem_of_getElem? hs, rfl⟩
  · exact ⟨x, h, rfl⟩

theorem mem_claim {x : StreamEntry} (hc : s.claim e = some (s', id)) (h : x ∈ s') :
    ∃ x' ∈ s, x'.importJobId = x.importJobId := by
  obtain ⟨i, hi⟩ := List.mem_iff_getElem?.mp h
  obtain ⟨⟨y, hy, -⟩, hpending, hother⟩ := claim_eq_some hc
  by_cases hie : i = e
  · subst hie
    rw [hpending] at hi
    cases hi
    exact ⟨_, List.mem_of_getElem? hy, rfl⟩
  · rw [hother i hie] at hi
    exact ⟨x, List.mem_of_getElem? hi, rfl⟩

theorem unacked_iff : s.Unacked id ↔ ∃ (i : ℕ) (y : Delivery), s[i]? = some ⟨id, y⟩ ∧ y ≠ .acked := by
  constructor
  · rintro ⟨x, hx, rfl, hy⟩
    obtain ⟨i, hi⟩ := List.mem_iff_getElem?.mp hx
    exact ⟨i, x.delivery, hi, hy⟩
  · rintro ⟨i, y, hi, hy⟩
    exact ⟨⟨id, y⟩, List.mem_of_getElem? hi, rfl, hy⟩

/-- The entries of other jobs stay un-acknowledged. -/
theorem Unacked.xack_of_ne {x : StreamEntry} (h : s.Unacked id) (he : s[e]? = some x)
    (hne : x.importJobId ≠ id) : (s.xack e).Unacked id := by
  obtain ⟨i, y, hi, hy⟩ := unacked_iff.mp h
  have hie : i ≠ e := by
    rintro rfl
    rw [hi] at he
    cases he
    exact hne rfl
  obtain ⟨z, hz, hsame⟩ := getElem?_xack (e := e) hi
  exact unacked_iff.mpr ⟨i, z, hz, by rw [hsame hie]; exact hy⟩

theorem Unacked.claim {id' : Uuid} (h : s.Unacked id) (hc : s.claim e = some (s', id')) :
    s'.Unacked id := by
  obtain ⟨i, y, hi, hy⟩ := unacked_iff.mp h
  obtain ⟨z, hz, hz'⟩ := getElem?_claim hc hi
  exact unacked_iff.mpr ⟨i, z, hz, hz' hy⟩

end Stream

end TransactionPlatform
