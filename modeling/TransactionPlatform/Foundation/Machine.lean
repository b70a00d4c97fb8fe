import Mathlib.Data.Nat.Notation
import Mathlib.Tactic.Common

/-!
# Machines driven by events

A machine says what an event does to a state, if it is possible there at all.  `Reaches` is
reachability by any number of events that all meet a condition; `perform` runs a given list of
events.  The rules are those for invariants and for simulation by a preorder.
-/

/-- A transition function on states and events; `none` when the event is not possible. -/
structure Machine (σ ε : Type) where
  next : σ → ε → Option σ

namespace Machine

variable {σ ε : Type} (M : Machine σ ε)

/-- `t` is reachable from `s` by events that all meet the condition `C`. -/
inductive Reaches (C : σ → ε → Prop) (s : σ) : σ → Prop where
  | refl : Reaches C s s
  | tail {t u : σ} {e : ε} (h : Reaches C s t) (hc : C t e) (hn : M.next t e = some u) :
      Reaches C s u

/-- Perform a list of events, each of which has to pass the test `ok`. -/
def perform (ok : σ → ε → Bool) (s : σ) : List ε → Option σ
  | [] => some s
  | e :: es => bif ok s e then (M.next s e).bind fun t => perform ok t es else none

/-- An infinite run. -/
structure Run where
  state : ℕ → σ
  event : ℕ → ε
  step : ∀ n, M.next (state n) (event n) = some (state (n + 1))

variable {M} {C C' : σ → ε → Prop} {s t u : σ}

theorem Reaches.trans (h : M.Reaches C s t) (h' : M.Reaches C t u) : M.Reaches C s u := by
  induction h' with
  | refl => exact h
  | tail _ hc hn ih => exact ih.tail hc hn

/-- One event. -/
theorem Reaches.single {e : ε} (hc : C s e) (hn : M.next s e = some t) : M.Reaches C s t :=
  Reaches.refl.tail hc hn

/-- A weaker condition on the events reaches at least as much. -/
theorem Reaches.mono (h : M.Reaches C s t) (hC : ∀ s e, C s e → C' s e) : M.Reaches C' s t := by
  induction h with
  | refl => exact .refl
  | tail _ hc hn ih => exact ih.tail (hC _ _ hc) hn

/-- A property that every event keeps holds in every state reached, and may be added to the
condition on the events. -/
theorem Reaches.strengthen {P : σ → Prop} (h : M.Reaches C s t) (hs : P s)
    (hstep : ∀ s e t, P s → C s e → M.next s e = some t → P t) :
    M.Reaches (fun s e => C s e ∧ P s) s t ∧ P t := by
  induction h with
  | refl => exact ⟨.refl, hs⟩
  | tail _ hc hn ih => exact ⟨ih.1.tail ⟨hc, ih.2⟩ hn, hstep _ _ _ ih.2 hc hn⟩

/-- The rule for simulation: if every event of the machine is matched by a step of the preorder `A`
between related states, then so is every run. -/
theorem Reaches.simulate {α : Type} {R : σ → α → Prop} {A : α → α → Prop} (hrefl : ∀ a, A a a)
    (htrans : ∀ a b c, A a b → A b c → A a c)
    (hstep : ∀ s e t a, R s a → C s e → M.next s e = some t → ∃ b, A a b ∧ R t b) {a : α}
    (h : M.Reaches C s t) (hR : R s a) : ∃ b, A a b ∧ R t b := by
  induction h with
  | refl => exact ⟨a, hrefl a, hR⟩
  | tail _ hc hn ih =>
    obtain ⟨b, hab, hb⟩ := ih
    obtain ⟨c, hbc, hc'⟩ := hstep _ _ _ b hb hc hn
    exact ⟨c, htrans _ _ _ hab hbc, hc'⟩

/-- Performing a list of events is one way to reach a state. -/
theorem reaches_of_perform {ok : σ → ε → Bool} (hok : ∀ s e, ok s e = true → C s e) {es : List ε}
    (h : M.perform ok s es = some t) : M.Reaches C s t := by
  induction es generalizing s with
  | nil => exact Option.some.inj h ▸ .refl
  | cons e es ih =>
    rw [perform] at h
    cases hb : ok s e with
    | false =>
      rw [hb] at h
      cases h
    | true =>
      rw [hb, cond_true] at h
      obtain ⟨u, hn, hp⟩ := Option.bind_eq_some_iff.mp h
      exact (Reaches.single (hok s e hb) hn).trans (ih hp)

end Machine
