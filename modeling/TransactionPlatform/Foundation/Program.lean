import Mathlib.Data.Nat.Notation
import Mathlib.Tactic.Common

/-!
# Programs over atomic operations

A `Program` is a finite-depth tree of atomic operations: it either has finished with a value, or
asks for one operation and continues with whatever the operation answers.  Nothing here fixes what
an operation means; an *interpreter* `exec` turns an operation, a `Fault` chosen by the
environment and a state into the next state and the answer.

Two notions are developed on top of the tree.

* `Program.play` runs a program alone, with an oracle that chooses the fault of every operation or
  stops the program there, and returns the state in which it stopped.
* `Program.Follows` relates a program to a small abstract state machine: whatever the environment
  does, every operation of the program is a move of the machine.  It composes with `Program.bind`,
  so it is proved once along the text of a program and then used for every invariant.

`Routine` is the usual imperative layer over `Program`: local variables of type `S` that survive an
exception of type `ε`.
-/

namespace Interleaved

/-- A program: finished with a value, or one atomic operation followed by a continuation. -/
inductive Program (Op : Type) (Ans : Op → Type) (α : Type) : Type where
  | done (a : α)
  | call (o : Op) (k : Ans o → Program Op Ans α)

variable {Op : Type} {Ans : Op → Type} {α β : Type} {σ Fault A : Type}

namespace Program

/-- Sequential composition. -/
def bind : Program Op Ans α → (α → Program Op Ans β) → Program Op Ans β
  | done a, f => f a
  | call o k, f => call o fun r => (k r).bind f

/-- Whether the program has finished. -/
def isDone : Program Op Ans α → Bool
  | done _ => true
  | call _ _ => false

/-! ### Running a program alone -/

/-- Run a program alone.  The oracle is asked, for the `n`-th operation, which fault the operation
meets; `none` stops the program just before that operation. -/
def play (exec : (o : Op) → Fault → σ → σ × Ans o) (orc : ℕ → Op → Option Fault) :
    ℕ → Program Op Ans α → σ → σ × Option α
  | _, done a, w => (w, some a)
  | n, call o k, w =>
    match orc n o with
    | none => (w, none)
    | some f => play exec orc (n + 1) (k (exec o f w).2) (exec o f w).1

/-- The operations of a play, with the faults they meet. -/
def played (exec : (o : Op) → Fault → σ → σ × Ans o) (orc : ℕ → Op → Option Fault) :
    ℕ → Program Op Ans α → σ → List (Op × Fault)
  | _, done _, _ => []
  | n, call o k, w =>
    match orc n o with
    | none => []
    | some f => (o, f) :: played exec orc (n + 1) (k (exec o f w).2) (exec o f w).1

/-- A program that is never stopped returns a value. -/
theorem exists_play_eq_some (exec : (o : Op) → Fault → σ → σ × Ans o)
    {orc : ℕ → Op → Option Fault} (horc : ∀ n o, orc n o ≠ none) (n : ℕ) (p : Program Op Ans α)
    (w : σ) : ∃ x, (p.play exec orc n w).2 = some x := by
  induction p generalizing n w with
  | done a => exact ⟨a, rfl⟩
  | call o k ih =>
    unfold play
    cases ho : orc n o with
    | none => exact absurd ho (horc n o)
    | some f => exact ih _ (n + 1) _

/-- An oracle that does not count gives the same play everywhere. -/
theorem play_const (exec : (o : Op) → Fault → σ → σ × Ans o) (g : Op → Option Fault) (n m : ℕ)
    (p : Program Op Ans α) (w : σ) :
    p.play exec (fun _ => g) n w = p.play exec (fun _ => g) m w := by
  induction p generalizing n m w with
  | done a => rfl
  | call o k ih =>
    unfold play
    cases g o with
    | none => rfl
    | some f => exact ih _ _ _ _

/-- The second program is played where the first one ended. -/
theorem play_bind (exec : (o : Op) → Fault → σ → σ × Ans o) {g : Op → Option Fault} {n : ℕ}
    {p : Program Op Ans α} {w w' : σ} {x : α} (k : α → Program Op Ans β)
    (h : p.play exec (fun _ => g) n w = (w', some x)) :
    (p.bind k).play exec (fun _ => g) n w = (k x).play exec (fun _ => g) n w' := by
  induction p generalizing n w with
  | done a =>
    cases h
    rfl
  | call o k' ih =>
    unfold play at h
    simp only [bind, play]
    cases ho : g o with
    | none => simp [ho] at h
    | some f =>
      simp only [ho] at h
      exact (ih _ h).trans (play_const exec g _ _ _ _)

/-- Run a program alone to its end, every operation meeting the same fault `f`. -/
def runAll (exec : (o : Op) → Fault → σ → σ × Ans o) (f : Fault) : Program Op Ans α → σ → σ × α
  | done a, w => (w, a)
  | call o k, w => runAll exec f (k (exec o f w).2) (exec o f w).1

/-- The second program starts where the first one ended. -/
theorem runAll_bind (exec : (o : Op) → Fault → σ → σ × Ans o) (f : Fault) (p : Program Op Ans α)
    (k : α → Program Op Ans β) (w : σ) :
    (p.bind k).runAll exec f w = (k (p.runAll exec f w).2).runAll exec f (p.runAll exec f w).1 := by
  induction p generalizing w with
  | done a => rfl
  | call o k' ih => exact ih _ _

/-! ### Following an abstract machine -/

variable (exec : (o : Op) → Fault → σ → σ × Ans o)
variable (step : Op → Fault → σ → A → σ → A → Prop)

/-- The program follows the abstract machine `step` from the phase `a`: in every state and under
every fault its next operation is a move of the machine, after which the rest of the program
follows the machine from the phase reached; a finished program is in a phase allowed by `post`. -/
def Follows (post : α → A → Prop) : Program Op Ans α → A → Prop
  | done x, a => post x a
  | call o k, a =>
    ∀ f w, ∃ a', step o f w a (exec o f w).1 a' ∧ (k (exec o f w).2).Follows post a'

variable {exec step}

/-- A weaker condition on the last phase is followed as well. -/
theorem Follows.mono {post post' : α → A → Prop} {p : Program Op Ans α} {a : A}
    (h : p.Follows exec step post a) (hpost : ∀ x a, post x a → post' x a) :
    p.Follows exec step post' a := by
  induction p generalizing a with
  | done x => exact hpost _ _ h
  | call o k ih =>
    intro f w
    obtain ⟨a', hstep, hk⟩ := h f w
    exact ⟨a', hstep, ih _ hk⟩

/-- The rule for sequential composition. -/
theorem Follows.bind {post : β → A → Prop} {p : Program Op Ans α} {f : α → Program Op Ans β}
    {a : A} (h : p.Follows exec step (fun x a => (f x).Follows exec step post a) a) :
    (p.bind f).Follows exec step post a := by
  induction p generalizing a with
  | done x => exact h
  | call o k ih =>
    intro e w
    obtain ⟨a', hstep, hk⟩ := h e w
    exact ⟨a', hstep, ih _ hk⟩

/-- Playing a program that follows the machine keeps every assertion that the moves of the machine
keep under the faults that are met, whether the program ends or is stopped. -/
theorem Follows.play {post : α → A → Prop} {p : Program Op Ans α} {a : A}
    (h : p.Follows exec step post a) {g : ℕ → Op → Option Fault} {n : ℕ} {J : σ → A → Prop}
    {w : σ}
    (hJ : J w a)
    (hstep : ∀ o f w₁ a w' a', (o, f) ∈ p.played exec g n w → J w₁ a → step o f w₁ a w' a' →
      J w' a') :
    ∃ a', J (p.play exec g n w).1 a' ∧ ∀ x, (p.play exec g n w).2 = some x → post x a' := by
  induction p generalizing a w n with
  | done x => exact ⟨a, hJ, fun y hy => (Option.some.inj hy) ▸ h⟩
  | call o k ih =>
    unfold Program.played at hstep
    unfold Program.play
    cases ho : g n o with
    | none => exact ⟨a, hJ, fun x hx => by cases hx⟩
    | some f =>
      simp only [ho] at hstep
      obtain ⟨a', hs, hk⟩ := h f w
      exact ih _ hk (hstep o f w a _ a' List.mem_cons_self hJ hs) fun o' f' w₁ b w' b' hmem =>
        hstep o' f' w₁ b w' b' (List.mem_cons_of_mem _ hmem)

/-- The machine moves along with a program that runs to its end. -/
theorem Follows.runAll {post : α → A → Prop} {p : Program Op Ans α} {a : A}
    (h : p.Follows exec step post a) {f : Fault} {J : σ → A → Prop} {w : σ} (hJ : J w a)
    (hstep : ∀ o w a w' a', J w a → step o f w a w' a' → J w' a') :
    ∃ a', J (p.runAll exec f w).1 a' ∧ post (p.runAll exec f w).2 a' := by
  induction p generalizing a w with
  | done x => exact ⟨a, hJ, h⟩
  | call o k ih =>
    obtain ⟨a', hs, hk⟩ := h f w
    exact ih _ hk (hstep o w a _ a' hJ hs)

end Program

/-! ### Routines: local state and exceptions -/

/-- An imperative program: it reads and writes local variables of type `S`, may raise an exception
of type `ε`, and the local variables survive the exception. -/
def Routine (S ε : Type) (Op : Type) (Ans : Op → Type) (α : Type) : Type :=
  S → Program Op Ans (Except ε α × S)

namespace Routine

variable {S ε : Type}

/-- What follows a routine that ended with a value or an exception: the value goes on to `f`, the
exception is passed on. -/
def andThen (f : α → Routine S ε Op Ans β) : Except ε α × S → Program Op Ans (Except ε β × S)
  | (.ok a, s) => f a s
  | (.error e, s) => .done (.error e, s)

/-- What follows the body of a `try`: a value is returned, an exception goes to the handler. -/
def orElse (handler : ε → Routine S ε Op Ans α) :
    Except ε α × S → Program Op Ans (Except ε α × S)
  | (.ok a, s) => .done (.ok a, s)
  | (.error e, s) => handler e s

instance : Monad (Routine S ε Op Ans) where
  pure a := fun s => .done (.ok a, s)
  bind m f := fun s => (m s).bind (andThen f)

/-- Raise an exception. -/
def raise (e : ε) : Routine S ε Op Ans α := fun s => .done (.error e, s)

/-- Run `m`; if it raises, run the handler on the local variables as the exception left them. -/
def tryExcept (m : Routine S ε Op Ans α) (handler : ε → Routine S ε Op Ans α) : Routine S ε Op Ans α :=
  fun s => (m s).bind (orElse handler)

/-- Read the local variables. -/
def get : Routine S ε Op Ans S := fun s => .done (.ok s, s)

/-- Assign to the local variables. -/
def modify (g : S → S) : Routine S ε Op Ans Unit := fun s => .done (.ok (), g s)

/-- Run `m` when the condition holds. -/
def runIf (c : Bool) (m : Routine S ε Op Ans Unit) : Routine S ε Op Ans Unit :=
  cond c m (pure ())

/-- One operation; its answer is returned as it is. -/
def ask (o : Op) : Routine S ε Op Ans (Ans o) := fun s => .call o fun r => .done (.ok r, s)

variable (exec : (o : Op) → Fault → σ → σ × Ans o)
variable (step : Op → Fault → σ → A → σ → A → Prop)

/-- `Program.Follows` for a routine started on the local variables `s`; the condition on the last
phase sees the result, the exception included, and the local variables. -/
def Follows (post : Except ε α → S → A → Prop) (m : Routine S ε Op Ans α) (s : S) (a : A) : Prop :=
  (m s).Follows exec step (fun r a => post r.1 r.2 a) a

variable {exec step}

/-- The rule for sequential composition: an exception of the first part skips the second. -/
theorem Follows.bind {post : Except ε β → S → A → Prop} {m : Routine S ε Op Ans α}
    {f : α → Routine S ε Op Ans β} {s : S} {a : A}
    (h : m.Follows exec step (fun r s a =>
      match r with
      | .ok x => (f x).Follows exec step post s a
      | .error e => post (.error e) s a) s a) :
    (m >>= f).Follows exec step post s a := by
  refine Program.Follows.bind (Program.Follows.mono h ?_)
  rintro ⟨r, s'⟩ a' hr
  cases r with
  | ok x => exact hr
  | error e => exact hr

/-- The rule for `tryExcept`: the handler starts from the phase in which the exception was
raised. -/
theorem Follows.tryExcept {post : Except ε α → S → A → Prop} {m : Routine S ε Op Ans α}
    {handler : ε → Routine S ε Op Ans α} {s : S} {a : A}
    (h : m.Follows exec step (fun r s a =>
      match r with
      | .ok x => post (.ok x) s a
      | .error e => (handler e).Follows exec step post s a) s a) :
    (m.tryExcept handler).Follows exec step post s a := by
  refine Program.Follows.bind (Program.Follows.mono h ?_)
  rintro ⟨r, s'⟩ a' hr
  cases r with
  | ok x => exact hr
  | error e => exact hr

/-- The rule of consequence. -/
theorem Follows.mono {P Q : Except ε α → S → A → Prop} {m : Routine S ε Op Ans α} {s : S} {a : A}
    (h : m.Follows exec step P s a) (hPQ : ∀ r s a, P r s a → Q r s a) :
    m.Follows exec step Q s a :=
  Program.Follows.mono h fun r a => hPQ r.1 r.2 a

/-- The rule for reading the local variables. -/
theorem follows_get {post : Except ε S → S → A → Prop} {s : S} {a : A} (h : post (.ok s) s a) :
    (get : Routine S ε Op Ans S).Follows exec step post s a := h

/-- The rule for an assignment. -/
theorem follows_modify {post : Except ε Unit → S → A → Prop} {g : S → S} {s : S} {a : A}
    (h : post (.ok ()) (g s) a) :
    (modify g : Routine S ε Op Ans Unit).Follows exec step post s a := h

/-- The rule for one operation. -/
theorem follows_ask {o : Op} {post : Except ε (Ans o) → S → A → Prop} {s : S} {a : A}
    (h : ∀ f w, ∃ a', step o f w a (exec o f w).1 a' ∧ post (.ok (exec o f w).2) s a') :
    (ask o).Follows exec step post s a := h

end Routine

end Interleaved
