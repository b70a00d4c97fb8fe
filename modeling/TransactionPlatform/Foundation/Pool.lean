import Mathlib.Data.List.Basic
import Mathlib.Logic.Relation
import TransactionPlatform.Foundation.Program

/-!
# Interleaved programs over a shared state

A `Pool` is a shared state with a list of programs running on it.  A `System` says what the
operations do (`exec`) and what may come from outside (`arrive`: a change of the shared state,
possibly with a new program).  One event runs the next operation of one program, crashes one
program, or lets something arrive; `System.Reaches` is reachability by any number of events, each
of which meets a condition on the pool it happens in.

Invariants are proved with an `Outline`: an invariant of the shared state and, for every program, an
assertion about the shared state that depends on the phase of an abstract machine the program
follows (`Program.Follows`).  `Outline.Sound` asks that one move of one program keeps the invariant,
its own assertion and the assertions of all other programs; `Outline.Sound.reaches` is the resulting
rule for runs of any length.  The text of the programs is never looked at again.
-/

namespace Interleaved

/-- One program of a pool with a tag that identifies it; `none` is a program that crashed. -/
structure Proc (τ Op : Type) (Ans : Op → Type) (α : Type) where
  tag : τ
  prog : Option (Program Op Ans α)

/-- A shared state and the programs running on it. -/
structure Pool (σ τ Op : Type) (Ans : Op → Type) (α : Type) where
  world : σ
  procs : List (Proc τ Op Ans α)

/-- One event of a run: an operation of the `i`-th program under a fault, a crash of the `i`-th
program, or an arrival from outside. -/
inductive Event (Fault E : Type) where
  | run (i : ℕ) (f : Fault)
  | crash (i : ℕ)
  | arrive (e : E)

/-- What operations and arrivals do. -/
structure System (σ τ Op : Type) (Ans : Op → Type) (Fault E α : Type) where
  exec : (o : Op) → Fault → σ → σ × Ans o
  arrive : E → σ → Option (σ × Option (τ × Program Op Ans α))

variable {σ τ Op : Type} {Ans : Op → Type} {Fault E α A : Type}

/-- An entry of a list with one entry replaced is the new one or an old one. -/
theorem getElem?_set_eq_some {β : Type*} {l : List β} {i j : ℕ} {x y : β}
    (h : (l.set i x)[j]? = some y) : (j = i ∧ y = x) ∨ (j ≠ i ∧ l[j]? = some y) := by
  rw [List.getElem?_set] at h
  split at h
  · next hij =>
    split at h
    · exact .inl ⟨hij.symm, (Option.some.inj h).symm⟩
    · cases h
  · next hij => exact .inr ⟨Ne.symm hij, h⟩

/-- Replacing an entry by itself changes nothing. -/
theorem set_eq_self {β : Type*} {l : List β} {i : ℕ} {x : β} (h : l[i]? = some x) :
    l.set i x = l := by
  obtain ⟨hlt, rfl⟩ := List.getElem?_eq_some_iff.mp h
  exact List.set_getElem_self hlt

/-- The other entries of the list are still there. -/
theorem mem_set_of_ne {β : Type*} {l : List β} {i j : ℕ} {x y : β} (h : l[j]? = some y)
    (hne : j ≠ i) : y ∈ l.set i x :=
  List.mem_of_getElem? ((List.getElem?_set_ne (Ne.symm hne)).trans h)

/-- An entry of a list with one entry appended is the new one or an old one. -/
theorem getElem?_concat_eq_some {β : Type*} {l : List β} {j : ℕ} {x y : β}
    (h : (l ++ [x])[j]? = some y) : (j = l.length ∧ y = x) ∨ (j ≠ l.length ∧ l[j]? = some y) := by
  rcases Nat.lt_trichotomy j l.length with hj | rfl | hj
  · rw [List.getElem?_append_left hj] at h
    exact .inr ⟨by omega, h⟩
  · rw [List.getElem?_concat_length] at h
    exact .inl ⟨rfl, (Option.some.inj h).symm⟩
  · rw [List.getElem?_eq_none (by simp; omega)] at h
    cases h

/-- The program is neither finished nor crashed. -/
def Proc.live (p : Proc τ Op Ans α) : Bool :=
  match p.prog with
  | some (.call _ _) => true
  | _ => false

/-- The value a finished program returned. -/
def Proc.result (p : Proc τ Op Ans α) : Option α :=
  match p.prog with
  | some (.done a) => some a
  | _ => none

theorem Proc.result_eq_some {p : Proc τ Op Ans α} {a : α} :
    p.result = some a ↔ p.prog = some (.done a) := by
  obtain ⟨t, prog⟩ := p
  unfold result
  constructor
  · intro h
    split at h
    · next b hb =>
      cases h
      exact hb
    · cases h
  · rintro rfl
    rfl

/-- A program that has returned is not running. -/
theorem Proc.live_of_result {p : Proc τ Op Ans α} {a : α} (h : p.result = some a) :
    p.live = false := by
  obtain ⟨t, prog⟩ := p
  obtain rfl : prog = some (.done a) := Proc.result_eq_some.mp h
  rfl

/-- A program that is neither running nor crashed has returned. -/
theorem Proc.exists_result {p : Proc τ Op Ans α} (hlive : p.live = false) (h : p.prog ≠ none) :
    ∃ a, p.result = some a := by
  obtain ⟨t, prog⟩ := p
  cases prog with
  | none => exact absurd rfl h
  | some prog =>
    cases prog with
    | done a => exact ⟨a, rfl⟩
    | call o k => cases hlive

/-- A program keeps its tag. -/
theorem map_tag_set {procs : List (Proc τ Op Ans α)} {i : ℕ} {t : τ}
    {q : Option (Program Op Ans α)} (hi : procs[i]? = some ⟨t, q⟩)
    (q' : Option (Program Op Ans α)) :
    (procs.set i ⟨t, q'⟩).map Proc.tag = procs.map Proc.tag := by
  have htag : (procs.map Proc.tag)[i]? = some t := by
    rw [List.getElem?_map, hi]
    rfl
  rw [List.map_set]
  exact set_eq_self htag

namespace System

variable (S : System σ τ Op Ans Fault E α)

/-- The effect of one event; `none` when the event is not possible. -/
def next (c : Pool σ τ Op Ans α) : Event Fault E → Option (Pool σ τ Op Ans α)
  | .run i f =>
    match c.procs[i]? with
    | some ⟨t, some (.call o k)⟩ =>
      some ⟨(S.exec o f c.world).1, c.procs.set i ⟨t, some (k (S.exec o f c.world).2)⟩⟩
    | _ => none
  | .crash i =>
    match c.procs[i]? with
    | some ⟨t, some (.call _ _)⟩ => some ⟨c.world, c.procs.set i ⟨t, none⟩⟩
    | _ => none
  | .arrive e =>
    match S.arrive e c.world with
    | some (w, some (t, p)) => some ⟨w, c.procs ++ [⟨t, some p⟩]⟩
    | some (w, none) => some ⟨w, c.procs⟩
    | none => none

/-- `d` is reachable from `c` by events that all meet the condition `C`. -/
inductive Reaches (C : Pool σ τ Op Ans α → Event Fault E → Prop) (c : Pool σ τ Op Ans α) :
    Pool σ τ Op Ans α → Prop where
  | refl : Reaches C c c
  | tail {d d' : Pool σ τ Op Ans α} {e : Event Fault E} (h : Reaches C c d) (hc : C d e)
      (hn : S.next d e = some d') : Reaches C c d'

/-- Perform a list of events, each of which has to pass the test `ok`. -/
def perform (ok : Pool σ τ Op Ans α → Event Fault E → Bool) (c : Pool σ τ Op Ans α) :
    List (Event Fault E) → Option (Pool σ τ Op Ans α)
  | [] => some c
  | e :: es => bif ok c e then (S.next c e).bind fun d => perform ok d es else none

variable {S} {C C' : Pool σ τ Op Ans α → Event Fault E → Prop} {c d d' : Pool σ τ Op Ans α}

/-- Reachability is transitive. -/
theorem Reaches.trans (h : S.Reaches C c d) (h' : S.Reaches C d d') : S.Reaches C c d' := by
  induction h' with
  | refl => exact h
  | tail _ hc hn ih => exact ih.tail hc hn

/-- The first event of a list has to pass the test and to be possible. -/
theorem perform_cons {ok : Pool σ τ Op Ans α → Event Fault E → Bool} {e : Event Fault E}
    {es : List (Event Fault E)} :
    S.perform ok c (e :: es) = some d ↔
      ok c e = true ∧ ∃ c', S.next c e = some c' ∧ S.perform ok c' es = some d := by
  rw [perform]
  cases ok c e with
  | false => simp
  | true => simp [Option.bind_eq_some_iff]

/-- Performing a list of events is one way to reach a pool. -/
theorem reaches_of_perform {ok : Pool σ τ Op Ans α → Event Fault E → Bool}
    (hok : ∀ c e, ok c e = true → C c e) {es : List (Event Fault E)}
    (h : S.perform ok c es = some d) : S.Reaches C c d := by
  suffices h' : ∀ c₀, S.Reaches C c₀ c → S.Reaches C c₀ d from h' c .refl
  intro c₀ hc₀
  induction es generalizing c with
  | nil => exact Option.some.inj h ▸ hc₀
  | cons e es ih =>
    obtain ⟨hb, c', hn, hp⟩ := perform_cons.mp h
    exact ih hp (hc₀.tail (hok c e hb) hn)

/-- What is performed with a test is performed without it, and every event has passed the test. -/
theorem forall_of_perform {ok : Pool σ τ Op Ans α → Event Fault E → Bool}
    {es : List (Event Fault E)} (h : S.perform ok c es = some d) :
    S.perform (fun _ _ => true) c es = some d ∧
      ∀ (n : ℕ) e c', es[n]? = some e → S.perform (fun _ _ => true) c (es.take n) = some c' →
        ok c' e = true := by
  induction es generalizing c with
  | nil => exact ⟨h, nofun⟩
  | cons e es ih =>
    obtain ⟨hb, c', hn, hp⟩ := perform_cons.mp h
    obtain ⟨hall, htest⟩ := ih hp
    refine ⟨perform_cons.mpr ⟨rfl, c', hn, hall⟩, fun n e' c'' he' hc'' => ?_⟩
    cases n with
    | zero =>
      cases he'
      cases hc''
      exact hb
    | succ n =>
      obtain ⟨-, c₁, hn', hp'⟩ := perform_cons.mp hc''
      rw [hn] at hn'
      cases hn'
      exact htest n e' c'' he' hp'

/-- A list of events that are all possible, each with a condition on the pool it happens in. -/
theorem reaches_of_forall {es : List (Event Fault E)}
    (h : S.perform (fun _ _ => true) c es = some d)
    (hC : ∀ (n : ℕ) e c', es[n]? = some e →
      S.perform (fun _ _ => true) c (es.take n) = some c' → C c' e) : S.Reaches C c d := by
  induction es generalizing c with
  | nil => exact Option.some.inj h ▸ .refl
  | cons e es ih =>
    obtain ⟨-, c', hn, hp⟩ := perform_cons.mp h
    refine (Reaches.refl.tail (hC 0 e c rfl rfl) hn).trans (ih hp fun n e' c'' he' hc'' => ?_)
    exact hC (n + 1) e' c'' he' (perform_cons.mpr ⟨rfl, c', hn, hc''⟩)

/-- One event of a list: the run up to it, its effect, and the run behind it. -/
theorem reaches_around {es : List (Event Fault E)} (h : S.perform (fun _ _ => true) c es = some d)
    {n : ℕ} {e : Event Fault E} (he : es[n]? = some e)
    (hd' : S.perform (fun _ _ => true) c (es.take n) = some d') :
    S.Reaches (fun _ _ => True) c d' ∧
      ∃ d'', S.next d' e = some d'' ∧ S.Reaches (fun _ _ => True) d'' d := by
  induction n generalizing c es with
  | zero =>
    cases es with
    | nil => cases he
    | cons e' es =>
      cases he
      cases hd'
      obtain ⟨-, d'', hn, hp⟩ := perform_cons.mp h
      exact ⟨.refl, d'', hn, reaches_of_perform (fun _ _ _ => trivial) hp⟩
  | succ n ih =>
    cases es with
    | nil => cases he
    | cons e' es =>
      obtain ⟨-, c', hn, hp⟩ := perform_cons.mp h
      obtain ⟨-, c'', hn', hp'⟩ := perform_cons.mp hd'
      rw [hn] at hn'
      cases hn'
      obtain ⟨hfront, hback⟩ := ih hp he hp'
      exact ⟨(Reaches.refl.tail trivial hn).trans hfront, hback⟩

/-- What one event can do: it runs an operation, crashes a program, changes the shared state from
outside, or starts a program. -/
theorem next_cases {e : Event Fault E} (h : S.next c e = some d) :
    (∃ i f t o k, e = .run i f ∧ c.procs[i]? = some ⟨t, some (.call o k)⟩ ∧
      d = ⟨(S.exec o f c.world).1, c.procs.set i ⟨t, some (k (S.exec o f c.world).2)⟩⟩) ∨
    (∃ i t o k, e = .crash i ∧ c.procs[i]? = some ⟨t, some (.call o k)⟩ ∧
      d = ⟨c.world, c.procs.set i ⟨t, none⟩⟩) ∨
    (∃ x w, e = .arrive x ∧ S.arrive x c.world = some (w, none) ∧ d = ⟨w, c.procs⟩) ∨
    (∃ x w t p, e = .arrive x ∧ S.arrive x c.world = some (w, some (t, p)) ∧
      d = ⟨w, c.procs ++ [⟨t, some p⟩]⟩) := by
  cases e with
  | run i f =>
    simp only [next] at h
    split at h
    · next t o k hi => exact .inl ⟨i, f, t, o, k, rfl, hi, (Option.some.inj h).symm⟩
    · cases h
  | crash i =>
    simp only [next] at h
    split at h
    · next t o k hi => exact .inr (.inl ⟨i, t, o, k, rfl, hi, (Option.some.inj h).symm⟩)
    · cases h
  | arrive x =>
    simp only [next] at h
    split at h
    · next w t p hx =>
      exact .inr (.inr (.inr ⟨x, w, t, p, rfl, hx, (Option.some.inj h).symm⟩))
    · next w hx => exact .inr (.inr (.inl ⟨x, w, rfl, hx, (Option.some.inj h).symm⟩))
    · cases h

/-- A weaker condition on the events reaches at least as much. -/
theorem Reaches.mono (h : S.Reaches C c d) (hC : ∀ c e, C c e → C' c e) : S.Reaches C' c d := by
  induction h with
  | refl => exact .refl
  | tail _ hc hn ih => exact ih.tail (hC _ _ hc) hn

/-- A property of pools that every event keeps holds all along the run, so it may be added to the
condition on the events. -/
theorem Reaches.strengthen {P : Pool σ τ Op Ans α → Prop} (h : S.Reaches C c d) (h0 : P c)
    (hstep : ∀ c e d, P c → C c e → S.next c e = some d → P d) :
    S.Reaches (fun c e => C c e ∧ P c) c d ∧ P d := by
  induction h with
  | refl => exact ⟨.refl, h0⟩
  | tail _ hc hn ih => exact ⟨ih.1.tail ⟨hc, ih.2⟩ hn, hstep _ _ _ ih.2 hc hn⟩

/-- A property that an event cannot establish, if it holds at the end, has held all along. -/
theorem Reaches.strengthen_of_end {P : Pool σ τ Op Ans α → Prop} (h : S.Reaches C c d) (hd : P d)
    (hback : ∀ c e d, S.next c e = some d → P d → P c) :
    S.Reaches (fun c e => C c e ∧ ∀ d, S.next c e = some d → P d) c d := by
  induction h with
  | refl => exact .refl
  | tail _ hc hn ih =>
    refine (ih (hback _ _ _ hn hd)).tail ⟨hc, fun d' hn' => ?_⟩ hn
    rw [hn] at hn'
    cases hn'
    exact hd

/-! ### Programs that end well -/

/-- No program has crashed or returned anything but a good value. -/
def Healthy (good : α → Prop) (c : Pool σ τ Op Ans α) : Prop :=
  ∀ p ∈ c.procs, p.live = true ∨ ∃ a, p.result = some a ∧ good a

/-- A program that is harmed stays so. -/
theorem Healthy.of_next {good : α → Prop} {e : Event Fault E} (h : Healthy good d)
    (hn : S.next c e = some d) : Healthy good c := by
  -- the program that an event replaces was running
  have hset : ∀ (w : σ) (i : ℕ) (t : τ) (o : Op) (k : Ans o → Program Op Ans α)
      (r : Option (Program Op Ans α)), c.procs[i]? = some ⟨t, some (.call o k)⟩ →
      Healthy good ⟨w, c.procs.set i ⟨t, r⟩⟩ → Healthy good c := by
    intro w i t o k r hi h p hp
    obtain ⟨j, hj⟩ := List.mem_iff_getElem?.mp hp
    by_cases hji : j = i
    · subst hji
      rw [hi] at hj
      cases hj
      exact .inl rfl
    · exact h p (mem_set_of_ne hj hji)
  rcases next_cases hn with ⟨i, f, t, o, k, -, hi, rfl⟩ | ⟨i, t, o, k, -, hi, rfl⟩ |
    ⟨x, w, -, -, rfl⟩ | ⟨x, w, t, p, rfl, hx, rfl⟩
  · exact hset _ i t o k _ hi h
  · exact hset _ i t o k _ hi h
  · exact h
  · exact fun q hq => h q (List.mem_append_left _ hq)

/-! ### Runs to the end -/

/-- No program has crashed. -/
def Intact (c : Pool σ τ Op Ans α) : Prop := ∀ p ∈ c.procs, p.prog ≠ none

/-- Only a crash can harm a program. -/
theorem Intact.next {e : Event Fault E} (h : Intact c) (he : ∀ i, e ≠ .crash i)
    (hn : S.next c e = some d) : Intact d := by
  rcases next_cases hn with ⟨i, f, t, o, k, -, hi, rfl⟩ | ⟨i, t, o, k, rfl, hi, rfl⟩ |
    ⟨x, w, -, -, rfl⟩ | ⟨x, w, t, p, -, -, rfl⟩
  · intro p hp
    rcases List.mem_or_eq_of_mem_set hp with hp | rfl
    · exact h p hp
    · nofun
  · exact absurd rfl (he i)
  · exact h
  · intro q hq
    rcases List.mem_append.mp hq with hq | hq
    · exact h q hq
    · rw [List.mem_singleton.mp hq]
      nofun

/-- If operations may always succeed, a program can be run to its end while the others wait. -/
theorem exists_reaches_return {f : Fault} (hC : ∀ c i, C c (.run i f)) {i : ℕ} {t : τ}
    (p : Program Op Ans α) (hi : c.procs[i]? = some ⟨t, some p⟩) :
    ∃ (w : σ) (a : α), S.Reaches C c ⟨w, c.procs.set i ⟨t, some (.done a)⟩⟩ := by
  induction p generalizing c with
  | done a =>
    refine ⟨c.world, a, ?_⟩
    rw [set_eq_self hi]
    exact .refl
  | call o k ih =>
    obtain ⟨hlt, -⟩ := List.getElem?_eq_some_iff.mp hi
    have hn : S.next c (.run i f) = some ⟨(S.exec o f c.world).1,
        c.procs.set i ⟨t, some (k (S.exec o f c.world).2)⟩⟩ := by
      simp only [next, hi]
    have hset : (c.procs.set i ⟨t, some (k (S.exec o f c.world).2)⟩)[i]? =
        some ⟨t, some (k (S.exec o f c.world).2)⟩ := by
      rw [List.getElem?_set_self hlt]
    obtain ⟨w, a, hreach⟩ := ih (S.exec o f c.world).2 (c := ⟨(S.exec o f c.world).1, _⟩) hset
    refine ⟨w, a, (Reaches.refl.tail (hC c i) hn).trans ?_⟩
    rw [List.set_set] at hreach
    exact hreach

/-- If operations may always succeed, every pool without a crashed program can be run until all
programs have returned. -/
theorem exists_reaches_returned {f : Fault} (hC : ∀ c i, C c (.run i f)) (h : Intact c) :
    ∃ d, S.Reaches C c d ∧ d.procs.map Proc.tag = c.procs.map Proc.tag ∧
      ∀ p ∈ d.procs, ∃ a, p.result = some a := by
  -- the first `n` programs have returned
  have hfirst : ∀ n, n ≤ c.procs.length → ∃ d, S.Reaches C c d ∧
      d.procs.map Proc.tag = c.procs.map Proc.tag ∧ Intact d ∧
      ∀ (i : ℕ) (p : Proc τ Op Ans α), i < n → d.procs[i]? = some p → ∃ a, p.result = some a := by
    intro n
    induction n with
    | zero => exact fun _ => ⟨c, .refl, rfl, h, fun i p hi => absurd hi (Nat.not_lt_zero i)⟩
    | succ n ih =>
      intro hn
      obtain ⟨d, hreach, htags, hintact, hdone⟩ := ih (Nat.le_of_succ_le hn)
      have hlen : d.procs.length = c.procs.length := by
        rw [← List.length_map (f := Proc.tag), htags, List.length_map]
      obtain ⟨⟨t, prog⟩, hp⟩ : ∃ p, d.procs[n]? = some p :=
        ⟨_, List.getElem?_eq_getElem (by omega)⟩
      obtain ⟨prog, rfl⟩ : ∃ q, prog = some q :=
        Option.ne_none_iff_exists'.mp (hintact _ (List.mem_of_getElem? hp))
      obtain ⟨w, a, hret⟩ := exists_reaches_return (S := S) hC prog hp
      refine ⟨_, hreach.trans hret, ?_, ?_, ?_⟩
      · exact (map_tag_set hp _).trans htags
      · intro q hq
        rcases List.mem_or_eq_of_mem_set hq with hq | rfl
        · exact hintact q hq
        · nofun
      · intro i q hi hq
        rcases getElem?_set_eq_some hq with ⟨-, rfl⟩ | ⟨hne, hq⟩
        · exact ⟨a, rfl⟩
        · exact hdone i q (by omega) hq
  obtain ⟨d, hreach, htags, -, hdone⟩ := hfirst _ (Nat.le_refl _)
  refine ⟨d, hreach, htags, fun p hp => ?_⟩
  obtain ⟨i, hi⟩ := List.mem_iff_getElem?.mp hp
  obtain ⟨hlt, -⟩ := List.getElem?_eq_some_iff.mp hi
  have hlen : d.procs.length = c.procs.length := by
    rw [← List.length_map (f := Proc.tag), htags, List.length_map]
  exact hdone i p (by omega) hi

/-! ### At most one live program per key -/

/-- No two live programs of the pool have the same key. -/
def Exclusive {K : Type} (key : τ → K) (c : Pool σ τ Op Ans α) : Prop :=
  ∀ (i j : ℕ) (p q : Proc τ Op Ans α), c.procs[i]? = some p → c.procs[j]? = some q →
    p.live = true → q.live = true → key p.tag = key q.tag → i = j

/-- If a program only starts while no live program has its key, then no two live programs ever have
the same key. -/
theorem Exclusive.next {K : Type} {key : τ → K} {e : Event Fault E} (h : Exclusive key c)
    (hstart : ∀ x w t p, e = .arrive x → S.arrive x c.world = some (w, some (t, p)) →
      ∀ q ∈ c.procs, q.live = true → key q.tag ≠ key t)
    (hn : S.next c e = some d) : Exclusive key d := by
  -- replacing a live program by anything with the same tag creates no new pair
  have hset : ∀ (w : σ) (i : ℕ) (t : τ) (o : Op) (k : Ans o → Program Op Ans α)
      (r : Option (Program Op Ans α)), c.procs[i]? = some ⟨t, some (.call o k)⟩ →
      Exclusive key ⟨w, c.procs.set i ⟨t, r⟩⟩ := by
    intro w i t o k r hi a b p q ha hb hp hq hk
    have hold : ∀ (a : ℕ) (p : Proc τ Op Ans α), (c.procs.set i ⟨t, r⟩)[a]? = some p →
        p.live = true → ∃ p', c.procs[a]? = some p' ∧ p'.live = true ∧ p'.tag = p.tag := by
      intro a p ha hp
      rcases getElem?_set_eq_some ha with ⟨rfl, rfl⟩ | ⟨-, ha'⟩
      · exact ⟨_, hi, rfl, rfl⟩
      · exact ⟨p, ha', hp, rfl⟩
    obtain ⟨p', ha', hp', htp⟩ := hold a p ha hp
    obtain ⟨q', hb', hq', htq⟩ := hold b q hb hq
    exact h a b p' q' ha' hb' hp' hq' (by rw [htp, htq]; exact hk)
  rcases next_cases hn with ⟨i, f, t, o, k, -, hi, rfl⟩ | ⟨i, t, o, k, -, hi, rfl⟩ |
    ⟨x, w, -, -, rfl⟩ | ⟨x, w, t, p, rfl, hx, rfl⟩
  · exact hset _ i t o k _ hi
  · exact hset _ i t o k _ hi
  · exact fun a b p q ha hb => h a b p q ha hb
  · have hnew := hstart x w t p rfl hx
    intro a b q r ha hb hq hr hk
    rcases getElem?_concat_eq_some ha with ⟨rfl, rfl⟩ | ⟨-, ha'⟩ <;>
      rcases getElem?_concat_eq_some hb with ⟨rfl, rfl⟩ | ⟨-, hb'⟩
    · rfl
    · exact absurd hk.symm (hnew r (List.mem_of_getElem? hb') hr)
    · exact absurd hk (hnew q (List.mem_of_getElem? ha') hq)
    · exact h a b q r ha' hb' hq hr hk

/-- Every program of the pool has a tag that satisfies `P`. -/
def Tagged (P : τ → Prop) (c : Pool σ τ Op Ans α) : Prop := ∀ p ∈ c.procs, P p.tag

/-- Tags are given when a program starts and never change. -/
theorem Tagged.next {P : τ → Prop} {e : Event Fault E} (h : Tagged P c)
    (hstart : ∀ x w t p, e = .arrive x → S.arrive x c.world = some (w, some (t, p)) → P t)
    (hn : S.next c e = some d) : Tagged P d := by
  have hset : ∀ (w : σ) (i : ℕ) (t : τ) (q r : Option (Program Op Ans α)),
      c.procs[i]? = some ⟨t, q⟩ → Tagged P ⟨w, c.procs.set i ⟨t, r⟩⟩ := by
    intro w i t q r hi p hp
    rcases List.mem_or_eq_of_mem_set hp with hp | rfl
    · exact h p hp
    · exact h ⟨t, q⟩ (List.mem_of_getElem? hi)
  rcases next_cases hn with ⟨i, f, t, o, k, -, hi, rfl⟩ | ⟨i, t, o, k, -, hi, rfl⟩ |
    ⟨x, w, -, -, rfl⟩ | ⟨x, w, t, p, rfl, hx, rfl⟩
  · exact hset _ i t _ _ hi
  · exact hset _ i t _ _ hi
  · exact h
  · intro q hq
    rcases List.mem_append.mp hq with hq | hq
    · exact h q hq
    · rw [List.mem_singleton.mp hq]
      exact hstart x w t p rfl hx

end System

/-! ### Proof outlines -/

/-- An invariant of the shared state, an assertion for a program with a given tag in a given phase,
and a relation between the shared states before and after a step. -/
structure Outline (σ τ A : Type) where
  Inv : σ → Prop
  Loc : τ → A → σ → Prop
  Guar : σ → σ → Prop

namespace Outline

variable (S : System σ τ Op Ans Fault E α) (C : Pool σ τ Op Ans α → Event Fault E → Prop)
variable (step : τ → Op → Fault → σ → A → σ → A → Prop) (final : τ → α → A → Prop)
variable (O : Outline σ τ A)

/-- The outline holds in a pool whose `i`-th program is in the phase `ph i`. -/
structure Holds (c : Pool σ τ Op Ans α) (ph : ℕ → A) : Prop where
  /-- The shared state satisfies the invariant. -/
  inv : O.Inv c.world
  /-- Every program that has not crashed follows the machine from its phase. -/
  follows : ∀ (i : ℕ) (t : τ) (p : Program Op Ans α), c.procs[i]? = some ⟨t, some p⟩ →
    p.Follows S.exec (step t) (final t) (ph i)
  /-- Every program that has not crashed satisfies the assertion of its phase. -/
  loc : ∀ (i : ℕ) (t : τ) (p : Program Op Ans α), c.procs[i]? = some ⟨t, some p⟩ →
    O.Loc t (ph i) c.world

/-- The obligations of an outline: what one move, one change from outside and one new program must
keep. -/
structure Sound : Prop where
  run : ∀ (c : Pool σ τ Op Ans α) (ph : ℕ → A) (i : ℕ) (t : τ) (o : Op)
    (k : Ans o → Program Op Ans α) (f : Fault) (a' : A), O.Holds S step final c ph →
    C c (.run i f) → c.procs[i]? = some ⟨t, some (.call o k)⟩ →
    step t o f c.world (ph i) (S.exec o f c.world).1 a' →
    (k (S.exec o f c.world).2).Follows S.exec (step t) (final t) a' →
    O.Inv (S.exec o f c.world).1 ∧ O.Loc t a' (S.exec o f c.world).1 ∧
    O.Guar c.world (S.exec o f c.world).1 ∧
    ∀ (j : ℕ) (t' : τ) (p' : Program Op Ans α), j ≠ i → c.procs[j]? = some ⟨t', some p'⟩ →
      O.Loc t' (ph j) (S.exec o f c.world).1
  arrive : ∀ (c : Pool σ τ Op Ans α) (ph : ℕ → A) (x : E) (w : σ)
    (r : Option (τ × Program Op Ans α)), O.Holds S step final c ph → C c (.arrive x) →
    S.arrive x c.world = some (w, r) →
    O.Inv w ∧ O.Guar c.world w ∧
    (∀ (i : ℕ) (t : τ) (p : Program Op Ans α), c.procs[i]? = some ⟨t, some p⟩ →
      O.Loc t (ph i) w) ∧
    ∀ t p, r = some (t, p) → ∃ a, p.Follows S.exec (step t) (final t) a ∧ O.Loc t a w

variable {S C step final O} {c d : Pool σ τ Op Ans α} {ph : ℕ → A}

/-- A stronger condition on the events keeps an outline sound. -/
theorem Sound.mono {C' : Pool σ τ Op Ans α → Event Fault E → Prop} (hO : O.Sound S C step final)
    (hC : ∀ c e, C' c e → C c e) : O.Sound S C' step final where
  run c ph i t o k f a' h hc := hO.run c ph i t o k f a' h (hC _ _ hc)
  arrive c ph x w r h hc := hO.arrive c ph x w r h (hC _ _ hc)

/-- A program that has returned is in a final phase, and the assertion of this phase holds. -/
theorem Holds.of_result (h : O.Holds S step final c ph) {i : ℕ} {p : Proc τ Op Ans α} {a : α}
    (hi : c.procs[i]? = some p) (hres : p.result = some a) :
    final p.tag a (ph i) ∧ O.Loc p.tag (ph i) c.world := by
  obtain ⟨t, prog⟩ := p
  obtain rfl : prog = some (.done a) := Proc.result_eq_some.mp hres
  exact ⟨h.follows i t _ hi, h.loc i t _ hi⟩

/-- One event keeps the outline. -/
theorem Sound.next (hO : O.Sound S C step final) (h : O.Holds S step final c ph)
    {e : Event Fault E} (hc : C c e) (hn : S.next c e = some d) :
    (∃ ph', O.Holds S step final d ph') ∧ (d.world = c.world ∨ O.Guar c.world d.world) := by
  rcases System.next_cases hn with ⟨i, f, t, o, k, rfl, hi, rfl⟩ | ⟨i, t, o, k, rfl, hi, rfl⟩ |
    ⟨x, w, rfl, hx, rfl⟩ | ⟨x, w, t, p, rfl, hx, rfl⟩
  · obtain ⟨a', hstep, hk⟩ := h.follows i t _ hi f c.world
    obtain ⟨hinv, hloc, hguar, hother⟩ := hO.run c ph i t o k f a' h hc hi hstep hk
    refine ⟨⟨Function.update ph i a', hinv, ?_, ?_⟩, .inr hguar⟩
    · intro j t' p' hj
      rcases getElem?_set_eq_some hj with ⟨rfl, heq⟩ | ⟨hne, hj'⟩
      · cases heq
        simpa using hk
      · rw [Function.update_of_ne hne]
        exact h.follows j t' p' hj'
    · intro j t' p' hj
      rcases getElem?_set_eq_some hj with ⟨rfl, heq⟩ | ⟨hne, hj'⟩
      · cases heq
        simpa using hloc
      · rw [Function.update_of_ne hne]
        exact hother j t' p' hne hj'
  · have hold : ∀ (j : ℕ) (t' : τ) (p' : Program Op Ans α),
        (c.procs.set i ⟨t, none⟩)[j]? = some ⟨t', some p'⟩ →
        c.procs[j]? = some ⟨t', some p'⟩ := by
      intro j t' p' hj
      rcases getElem?_set_eq_some hj with ⟨rfl, heq⟩ | ⟨-, hj'⟩
      · cases heq
      · exact hj'
    exact ⟨⟨ph, h.inv, fun j t' p' hj => h.follows j t' p' (hold j t' p' hj),
      fun j t' p' hj => h.loc j t' p' (hold j t' p' hj)⟩, .inl rfl⟩
  · obtain ⟨hinv, hguar, hloc, -⟩ := hO.arrive c ph x w none h hc hx
    exact ⟨⟨ph, hinv, h.follows, hloc⟩, .inr hguar⟩
  · obtain ⟨hinv, hguar, hloc, hnew⟩ := hO.arrive c ph x w _ h hc hx
    obtain ⟨a, hfollow, ha⟩ := hnew t p rfl
    refine ⟨⟨Function.update ph c.procs.length a, hinv, ?_, ?_⟩, .inr hguar⟩
    · intro j t' p' hj
      rcases getElem?_concat_eq_some hj with ⟨rfl, heq⟩ | ⟨hne, hj'⟩
      · cases heq
        simpa using hfollow
      · rw [Function.update_of_ne hne]
        exact h.follows j t' p' hj'
    · intro j t' p' hj
      rcases getElem?_concat_eq_some hj with ⟨rfl, heq⟩ | ⟨hne, hj'⟩
      · cases heq
        simpa using ha
      · rw [Function.update_of_ne hne]
        exact hloc j t' p' hj'

/-- The rule for runs: a sound outline that holds in a pool holds in every pool reached from it, and
every step on the way satisfies the guarantee. -/
theorem Sound.reaches (hO : O.Sound S C step final) (h : O.Holds S step final c ph)
    (hr : S.Reaches C c d) :
    (∃ ph', O.Holds S step final d ph') ∧ Relation.ReflTransGen O.Guar c.world d.world := by
  induction hr with
  | refl => exact ⟨⟨ph, h⟩, .refl⟩
  | tail _ hc hn ih =>
    obtain ⟨⟨ph', h'⟩, hg⟩ := ih
    obtain ⟨hnext, hsame | hguar⟩ := hO.next h' hc hn
    · exact ⟨hnext, hsame ▸ hg⟩
    · exact ⟨hnext, hg.tail hguar⟩

/-- The rule for a property of pools that every event keeps where the outline holds: it holds in
every pool reached, and may be added to the condition on the events together with the outline. -/
theorem Sound.strengthen (hO : O.Sound S C step final) {Q : Pool σ τ Op Ans α → Prop}
    (h : O.Holds S step final c ph) (hQ : Q c)
    (hstep : ∀ c ph e d ph', O.Holds S step final c ph → Q c → C c e → S.next c e = some d →
      O.Holds S step final d ph' → Q d) (hr : S.Reaches C c d) :
    S.Reaches (fun c e => C c e ∧ Q c ∧ ∃ ph, O.Holds S step final c ph) c d ∧ Q d ∧
      ∃ ph', O.Holds S step final d ph' := by
  induction hr with
  | refl => exact ⟨.refl, hQ, ph, h⟩
  | tail _ hc hn ih =>
    obtain ⟨hreach, hQ', ph', h'⟩ := ih
    obtain ⟨⟨ph'', h''⟩, -⟩ := hO.next h' hc hn
    exact ⟨hreach.tail ⟨hc, hQ', ph', h'⟩ hn, hstep _ _ _ _ _ h' hQ' hc hn h'', ph'', h''⟩

/-- A pool without programs satisfies an outline as soon as its shared state satisfies the
invariant. -/
theorem holds_empty {w : σ} (h : O.Inv w) (ph : ℕ → A) : O.Holds S step final ⟨w, []⟩ ph :=
  ⟨h, fun i t p hi => by simp at hi, fun i t p hi => by simp at hi⟩

end Outline

end Interleaved
