import Mathlib.Data.List.Perm.Basic
import TransactionPlatform.Foundation.Pool

/-!
# Pools whose running programs are in somebody's hands

A machine outside of a pool may keep programs in its own state and run them there.  `Pool.Holds`
says that a pool consists of the programs in such a list, in some order, and of programs that are no
longer running.  The lemmas match what the machine does with its programs by events of the pool: it
runs the next operation of one of them, drops some, or takes up a new one.
-/

namespace Interleaved

variable {σ τ Op : Type} {Ans : Op → Type} {Fault E α : Type}

/-- The pool consists of the programs in `held`, in some order, and of programs that do not run. -/
def Pool.Holds (d : Pool σ τ Op Ans α) (held : List (Proc τ Op Ans α)) : Prop :=
  ∃ idle, (∀ p ∈ idle, p.live = false) ∧ d.procs.Perm (held ++ idle)

namespace Pool.Holds

variable {S : System σ τ Op Ans Fault E α} {C : Pool σ τ Op Ans α → Event Fault E → Prop}
variable {d : Pool σ τ Op Ans α} {held held' : List (Proc τ Op Ans α)}

/-- The order does not matter. -/
theorem perm (h : d.Holds held) (hp : held.Perm held') : d.Holds held' := by
  obtain ⟨idle, hidle, hprocs⟩ := h
  exact ⟨idle, hidle, hprocs.trans (hp.append_right idle)⟩

/-- What runs in the pool is in the list. -/
theorem mem_of_live (h : d.Holds held) {p : Proc τ Op Ans α} (hp : p ∈ d.procs)
    (hlive : p.live = true) : p ∈ held := by
  obtain ⟨idle, hidle, hprocs⟩ := h
  rcases List.mem_append.mp (hprocs.mem_iff.mp hp) with hp | hp
  · exact hp
  · rw [hidle p hp] at hlive
    cases hlive

/-- What is in the list is in the pool, at some index; the rest of the pool does not change when it
is replaced. -/
theorem exists_index {p : Proc τ Op Ans α} (h : d.Holds (p :: held)) :
    ∃ i, d.procs[i]? = some p ∧ ∀ (w : σ) q, Pool.Holds ⟨w, d.procs.set i q⟩ (q :: held) := by
  obtain ⟨idle, hidle, hprocs⟩ := h
  obtain ⟨i, hi⟩ := List.mem_iff_getElem?.mp (hprocs.mem_iff.mpr List.mem_cons_self)
  obtain ⟨hlt, hget⟩ := List.getElem?_eq_some_iff.mp hi
  refine ⟨i, hi, fun w q => ⟨idle, hidle, ?_⟩⟩
  have herase : (d.procs.eraseIdx i).Perm (held ++ idle) := by
    have hperm := (List.getElem_cons_eraseIdx_perm hlt).trans hprocs
    rw [hget] at hperm
    exact hperm.cons_inv
  exact (List.set_perm_cons_eraseIdx hlt q).trans (herase.cons q)

/-- One of the programs runs its next operation. -/
theorem run {t : τ} {o : Op} {k : Ans o → Program Op Ans α}
    (h : d.Holds (⟨t, some (.call o k)⟩ :: held)) (f : Fault) :
    ∃ i d', d.procs[i]? = some ⟨t, some (.call o k)⟩ ∧ S.next d (.run i f) = some d' ∧
      d'.world = (S.exec o f d.world).1 ∧
      d'.Holds (⟨t, some (k (S.exec o f d.world).2)⟩ :: held) := by
  obtain ⟨i, hi, hset⟩ := h.exists_index
  refine ⟨i, _, hi, ?_, rfl, hset (S.exec o f d.world).1 _⟩
  simp only [System.next, hi]

/-- A program is dropped. -/
theorem drop (hC : ∀ d i, C d (.crash i)) {p : Proc τ Op Ans α} (h : d.Holds (p :: held)) :
    ∃ d', S.Reaches C d d' ∧ d'.world = d.world ∧ d'.Holds held := by
  -- a program that does not run becomes one of the others
  have hidle : ∀ {d : Pool σ τ Op Ans α} {q : Proc τ Op Ans α}, q.live = false →
      d.Holds (q :: held) → d.Holds held := by
    rintro d q hq ⟨idle, hidle, hprocs⟩
    refine ⟨q :: idle, fun x hx => ?_, hprocs.trans List.perm_middle.symm⟩
    rcases List.mem_cons.mp hx with rfl | hx
    · exact hq
    · exact hidle x hx
  cases hlive : p.live with
  | false => exact ⟨d, .refl, rfl, hidle hlive h⟩
  | true =>
    obtain ⟨t, prog⟩ := p
    cases prog with
    | none => cases hlive
    | some prog =>
      cases prog with
      | done a => cases hlive
      | call o k =>
        obtain ⟨i, hi, hset⟩ := h.exists_index
        have hn : S.next d (.crash i) = some ⟨d.world, d.procs.set i ⟨t, none⟩⟩ := by
          simp only [System.next, hi]
        exact ⟨_, System.Reaches.refl.tail (hC d i) hn, rfl, hidle rfl (hset d.world ⟨t, none⟩)⟩

/-- Several programs are dropped. -/
theorem drop_append (hC : ∀ d i, C d (.crash i)) {dropped : List (Proc τ Op Ans α)}
    (h : d.Holds (dropped ++ held)) :
    ∃ d', S.Reaches C d d' ∧ d'.world = d.world ∧ d'.Holds held := by
  induction dropped generalizing d with
  | nil => exact ⟨d, .refl, rfl, h⟩
  | cons p dropped ih =>
    obtain ⟨d₁, hreach₁, hworld₁, h₁⟩ := drop (S := S) hC h
    obtain ⟨d₂, hreach₂, hworld₂, h₂⟩ := ih h₁
    exact ⟨d₂, hreach₁.trans hreach₂, hworld₂.trans hworld₁, h₂⟩

/-- A program starts. -/
theorem start {x : E} {w : σ} {t : τ} {p : Program Op Ans α} (h : d.Holds held)
    (hx : S.arrive x d.world = some (w, some (t, p))) :
    ∃ d', S.next d (.arrive x) = some d' ∧ d'.world = w ∧ d'.Holds (⟨t, some p⟩ :: held) := by
  obtain ⟨idle, hidle, hprocs⟩ := h
  refine ⟨⟨w, d.procs ++ [⟨t, some p⟩]⟩, by simp only [System.next, hx], rfl, idle, hidle, ?_⟩
  exact (List.perm_append_singleton _ _).trans (hprocs.cons _)

/-- The shared state changes from outside. -/
theorem arrive {x : E} {w : σ} (h : d.Holds held) (hx : S.arrive x d.world = some (w, none)) :
    ∃ d', S.next d (.arrive x) = some d' ∧ d'.world = w ∧ d'.Holds held :=
  ⟨⟨w, d.procs⟩, by simp only [System.next, hx], rfl, h⟩

end Pool.Holds

end Interleaved
