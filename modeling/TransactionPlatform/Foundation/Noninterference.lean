import TransactionPlatform.Foundation.Pool

/-!
# Noninterference between groups of programs

The programs of a pool whose tags pass `keep` form a group.  `purge` keeps of a history only the
events of the group, as they would read if nobody else were there.  An `Unwinding` relates the
shared state to the one of the group alone: an operation of the group gets the same answer in both,
and what the others do cannot be seen.  Then every history leads the group to where its own events
alone would have led it (`Unwinding.performs`), so two histories with the same events of the group
cannot be told apart by it (`Unwinding.eq_of_purge`).
-/

namespace Interleaved

variable {σ τ Op : Type} {Ans : Op → Type} {Fault E α : Type}

/-! ### The group inside the list of programs -/

section Lists

variable {β : Type} {p : β → Bool} {l : List β} {i : ℕ} {x y : β}

/-- A member of the group is found among the group behind the members before it. -/
theorem getElem?_filter_countP (hi : l[i]? = some x) (hx : p x = true) :
    (l.filter p)[(l.take i).countP p]? = some x := by
  induction l generalizing i with
  | nil => cases hi
  | cons z l ih =>
    cases i with
    | zero =>
      cases hi
      rw [List.filter_cons_of_pos hx]
      rfl
    | succ i =>
      rw [List.getElem?_cons_succ] at hi
      rw [List.take_succ_cons]
      by_cases hz : p z = true
      · rw [List.filter_cons_of_pos hz, List.countP_cons_of_pos hz, List.getElem?_cons_succ]
        exact ih hi
      · rw [List.filter_cons_of_neg hz, List.countP_cons_of_neg hz]
        exact ih hi

/-- Replacing a member of the group. -/
theorem filter_set_of_pos (hi : l[i]? = some x) (hx : p x = true) (hy : p y = true) :
    (l.set i y).filter p = (l.filter p).set ((l.take i).countP p) y := by
  induction l generalizing i with
  | nil => cases hi
  | cons z l ih =>
    cases i with
    | zero =>
      cases hi
      rw [List.set_cons_zero, List.filter_cons_of_pos hy, List.filter_cons_of_pos hx]
      rfl
    | succ i =>
      rw [List.getElem?_cons_succ] at hi
      rw [List.set_cons_succ, List.take_succ_cons]
      by_cases hz : p z = true
      · rw [List.filter_cons_of_pos hz, List.filter_cons_of_pos hz, List.countP_cons_of_pos hz,
          List.set_cons_succ, ih hi]
      · rw [List.filter_cons_of_neg hz, List.filter_cons_of_neg hz, List.countP_cons_of_neg hz,
          ih hi]

/-- Replacing an entry outside of the group. -/
theorem filter_set_of_neg (hi : l[i]? = some x) (hx : p x = false) (hy : p y = false) :
    (l.set i y).filter p = l.filter p := by
  induction l generalizing i with
  | nil => cases hi
  | cons z l ih =>
    cases i with
    | zero =>
      cases hi
      rw [List.set_cons_zero, List.filter_cons_of_neg (by rw [hy]; nofun),
        List.filter_cons_of_neg (by rw [hx]; nofun)]
    | succ i =>
      rw [List.getElem?_cons_succ] at hi
      rw [List.set_cons_succ, List.filter_cons, List.filter_cons, ih hi]

/-- A new member of the group. -/
theorem filter_concat_of_pos (hx : p x = true) : (l ++ [x]).filter p = l.filter p ++ [x] := by
  rw [List.filter_append, List.filter_cons_of_pos hx, List.filter_nil]

/-- A new entry outside of the group. -/
theorem filter_concat_of_neg (hx : p x = false) : (l ++ [x]).filter p = l.filter p := by
  rw [List.filter_append, List.filter_cons_of_neg (by rw [hx]; nofun), List.filter_nil,
    List.append_nil]

end Lists

namespace System

/-! ### Histories -/

/-- The events of `es`, each of which meets the condition `C`, lead from `c` to `d`. -/
inductive Performs (S : System σ τ Op Ans Fault E α)
    (C : Pool σ τ Op Ans α → Event Fault E → Prop) :
    Pool σ τ Op Ans α → List (Event Fault E) → Pool σ τ Op Ans α → Prop where
  | nil {c : Pool σ τ Op Ans α} : Performs S C c [] c
  | cons {c d d' : Pool σ τ Op Ans α} {e : Event Fault E} {es : List (Event Fault E)} (hc : C c e)
      (hn : S.next c e = some d) (h : Performs S C d es d') : Performs S C c (e :: es) d'

variable {S : System σ τ Op Ans Fault E α} {C C' : Pool σ τ Op Ans α → Event Fault E → Prop}
variable {c d d' : Pool σ τ Op Ans α} {es es' : List (Event Fault E)}

/-- A history determines where it leads. -/
theorem Performs.unique (h : S.Performs C c es d) (h' : S.Performs C' c es d') : d = d' := by
  induction h with
  | nil =>
    cases h'
    rfl
  | cons _ hn _ ih =>
    cases h' with
    | cons _ hn' h' =>
      rw [hn] at hn'
      cases hn'
      exact ih h'

/-- What a history leads to is reachable. -/
theorem Performs.reaches (h : S.Performs C c es d) : S.Reaches C c d := by
  induction h with
  | nil => exact .refl
  | cons hc hn _ ih => exact (Reaches.refl.tail hc hn).trans ih

/-- Performing a list of events is a history. -/
theorem performs_of_perform {ok : Pool σ τ Op Ans α → Event Fault E → Bool}
    (hok : ∀ c e, ok c e = true → C c e) (h : S.perform ok c es = some d) :
    S.Performs C c es d := by
  induction es generalizing c with
  | nil =>
    cases h
    exact .nil
  | cons e es ih =>
    obtain ⟨hb, c', hn, hp⟩ := perform_cons.mp h
    exact .cons (hok c e hb) hn (ih hp)

/-! ### The events of a group -/

/-- What is left of a history for the group.  The list has the tags of the programs so far, and
`tagOf` says which tag the program of an arrival gets. -/
def purge (tagOf : E → Option τ) (keep : τ → Bool) :
    List τ → List (Event Fault E) → List (Event Fault E)
  | _, [] => []
  | ts, .run i f :: es =>
    bif (ts[i]?).any keep then .run ((ts.take i).countP keep) f :: purge tagOf keep ts es
    else purge tagOf keep ts es
  | ts, .crash i :: es =>
    bif (ts[i]?).any keep then .crash ((ts.take i).countP keep) :: purge tagOf keep ts es
    else purge tagOf keep ts es
  | ts, .arrive x :: es =>
    match tagOf x with
    | none => purge tagOf keep ts es
    | some t =>
      bif keep t then .arrive x :: purge tagOf keep (ts ++ [t]) es
      else purge tagOf keep (ts ++ [t]) es

section Purge

variable {tagOf : E → Option τ} {keep : τ → Bool} {i : ℕ} {t : τ} {q : Option (Program Op Ans α)}

/-- The place of a program in the group, and whether it belongs to it. -/
theorem place_of_tags (keep : τ → Bool) (hi : c.procs[i]? = some ⟨t, q⟩) :
    ((c.procs.map Proc.tag)[i]?).any keep = keep t ∧
    ((c.procs.map Proc.tag).take i).countP keep =
      (c.procs.take i).countP fun p => keep p.tag := by
  constructor
  · rw [List.getElem?_map, hi]
    rfl
  · rw [← List.map_take, List.countP_map]
    rfl

theorem purge_run (hi : c.procs[i]? = some ⟨t, q⟩) (f : Fault) :
    purge tagOf keep (c.procs.map Proc.tag) (.run i f :: es) =
      bif keep t then .run ((c.procs.take i).countP fun p => keep p.tag) f ::
        purge tagOf keep (c.procs.map Proc.tag) es
      else purge tagOf keep (c.procs.map Proc.tag) es := by
  obtain ⟨hany, hplace⟩ := place_of_tags keep hi
  rw [purge, hany, hplace]

theorem purge_crash (hi : c.procs[i]? = some ⟨t, q⟩) :
    purge tagOf keep (c.procs.map Proc.tag) ((.crash i : Event Fault E) :: es) =
      bif keep t then .crash ((c.procs.take i).countP fun p => keep p.tag) ::
        purge tagOf keep (c.procs.map Proc.tag) es
      else purge tagOf keep (c.procs.map Proc.tag) es := by
  obtain ⟨hany, hplace⟩ := place_of_tags keep hi
  rw [purge, hany, hplace]

theorem purge_start {x : E} (p : Proc τ Op Ans α) (hx : tagOf x = some p.tag) :
    purge tagOf keep (c.procs.map Proc.tag) ((.arrive x : Event Fault E) :: es) =
      bif keep p.tag then .arrive x :: purge tagOf keep ((c.procs ++ [p]).map Proc.tag) es
      else purge tagOf keep ((c.procs ++ [p]).map Proc.tag) es := by
  rw [purge]
  simp only [hx, List.map_append, List.map_cons, List.map_nil]

end Purge

/-- The programs of the group. -/
def group (keep : τ → Bool) (c : Pool σ τ Op Ans α) : List (Proc τ Op Ans α) :=
  c.procs.filter fun p => keep p.tag

/-- The obligations of noninterference: `J` is an invariant of the pools, and `R` relates the shared
state to the shared state of the group alone. -/
structure Unwinding (S : System σ τ Op Ans Fault E α)
    (C : Pool σ τ Op Ans α → Event Fault E → Prop) (J : Pool σ τ Op Ans α → Prop)
    (tagOf : E → Option τ) (keep : τ → Bool) (R : σ → σ → Prop) : Prop where
  inv : ∀ c e d, J c → C c e → S.next c e = some d → J d
  /-- An operation of the group. -/
  kept : ∀ (c : Pool σ τ Op Ans α) (v : σ) (i : ℕ) (t : τ) (o : Op) (k : Ans o → Program Op Ans α)
    (f : Fault), J c → C c (.run i f) → c.procs[i]? = some ⟨t, some (.call o k)⟩ →
    keep t = true → R c.world v →
    (S.exec o f v).2 = (S.exec o f c.world).2 ∧ R (S.exec o f c.world).1 (S.exec o f v).1
  /-- An operation of another program. -/
  dropped : ∀ (c : Pool σ τ Op Ans α) (v : σ) (i : ℕ) (t : τ) (o : Op)
    (k : Ans o → Program Op Ans α) (f : Fault), J c → C c (.run i f) →
    c.procs[i]? = some ⟨t, some (.call o k)⟩ → keep t = false → R c.world v →
    R (S.exec o f c.world).1 v
  /-- An arrival that starts a program. -/
  start : ∀ (c : Pool σ τ Op Ans α) (v : σ) (x : E) (w : σ) (t : τ) (p : Program Op Ans α), J c →
    C c (.arrive x) → S.arrive x c.world = some (w, some (t, p)) → R c.world v →
    tagOf x = some t ∧
    (keep t = true → ∃ v', S.arrive x v = some (v', some (t, p)) ∧ R w v') ∧
    (keep t = false → R w v)
  /-- An arrival that only changes the shared state. -/
  change : ∀ (c : Pool σ τ Op Ans α) (v : σ) (x : E) (w : σ), J c → C c (.arrive x) →
    S.arrive x c.world = some (w, none) → R c.world v → tagOf x = none ∧ R w v

namespace Unwinding

variable {J : Pool σ τ Op Ans α → Prop} {tagOf : E → Option τ} {keep : τ → Bool}
variable {R : σ → σ → Prop} {v : σ}

/-- One event: the group takes the step that `purge` leaves of it, or none. -/
theorem next (hU : Unwinding S C J tagOf keep R) {e : Event Fault E} (hJ : J c)
    (hR : R c.world v) (hC : C c e) (hn : S.next c e = some d) :
    ∃ v', R d.world v' ∧ ∀ es,
      (purge tagOf keep (c.procs.map Proc.tag) (e :: es) =
          purge tagOf keep (d.procs.map Proc.tag) es ∧
        v' = v ∧ group keep d = group keep c) ∨
      ∃ e', purge tagOf keep (c.procs.map Proc.tag) (e :: es) =
          e' :: purge tagOf keep (d.procs.map Proc.tag) es ∧
        S.next ⟨v, group keep c⟩ e' = some ⟨v', group keep d⟩ := by
  rcases next_cases hn with ⟨i, f, t, o, k, rfl, hi, rfl⟩ | ⟨i, t, o, k, rfl, hi, rfl⟩ |
    ⟨x, w, rfl, hx, rfl⟩ | ⟨x, w, t, p, rfl, hx, rfl⟩
  · have htags := map_tag_set hi (some (k (S.exec o f c.world).2))
    cases ht : keep t with
    | false =>
      refine ⟨v, hU.dropped c v i t o k f hJ hC hi ht hR, fun es => .inl ⟨?_, rfl, ?_⟩⟩
      · rw [purge_run hi, ht, htags, cond_false]
      · exact filter_set_of_neg hi ht ht
    | true =>
      obtain ⟨hans, hR'⟩ := hU.kept c v i t o k f hJ hC hi ht hR
      have hget := getElem?_filter_countP (p := fun p => keep p.tag) hi ht
      refine ⟨_, hR', fun es => .inr ⟨_, by rw [purge_run hi, ht, htags, cond_true], ?_⟩⟩
      simp only [System.next, group, hget, hans]
      rw [filter_set_of_pos hi ht ht]
  · have htags := map_tag_set hi none
    cases ht : keep t with
    | false =>
      refine ⟨v, hR, fun es => .inl ⟨?_, rfl, ?_⟩⟩
      · rw [purge_crash hi, ht, htags, cond_false]
      · exact filter_set_of_neg hi ht ht
    | true =>
      have hget := getElem?_filter_countP (p := fun p => keep p.tag) hi ht
      refine ⟨v, hR, fun es => .inr ⟨_, by rw [purge_crash hi, ht, htags, cond_true], ?_⟩⟩
      simp only [System.next, group, hget]
      rw [filter_set_of_pos hi ht ht]
  · obtain ⟨htag, hR'⟩ := hU.change c v x w hJ hC hx hR
    refine ⟨v, hR', fun es => .inl ⟨?_, rfl, rfl⟩⟩
    rw [purge, htag]
  · obtain ⟨htag, hkeep, hdrop⟩ := hU.start c v x w t p hJ hC hx hR
    cases ht : keep t with
    | false =>
      refine ⟨v, hdrop ht, fun es => .inl ⟨?_, rfl, ?_⟩⟩
      · rw [purge_start ⟨t, some p⟩ htag, ht, cond_false]
      · exact filter_concat_of_neg ht
    | true =>
      obtain ⟨v', hx', hR'⟩ := hkeep ht
      refine ⟨v', hR', fun es => .inr ⟨_, by rw [purge_start ⟨t, some p⟩ htag, ht, cond_true], ?_⟩⟩
      have hgroup : group keep ⟨w, c.procs ++ [⟨t, some p⟩]⟩ = group keep c ++ [⟨t, some p⟩] :=
        filter_concat_of_pos ht
      simp only [System.next, hx', hgroup]

/-- Every history leads the group to where its own events lead it. -/
theorem performs (hU : Unwinding S C J tagOf keep R) (h : S.Performs C c es d) (hJ : J c)
    (hR : R c.world v) :
    ∃ v', R d.world v' ∧ S.Performs (fun _ _ => True) ⟨v, group keep c⟩
      (purge tagOf keep (c.procs.map Proc.tag) es) ⟨v', group keep d⟩ := by
  induction h generalizing v with
  | nil => exact ⟨v, hR, .nil⟩
  | cons hC hn _ ih =>
    obtain ⟨v₁, hR₁, hstep⟩ := hU.next hJ hR hC hn
    obtain ⟨v₂, hR₂, hrest⟩ := ih (hU.inv _ _ _ hJ hC hn) hR₁
    refine ⟨v₂, hR₂, ?_⟩
    rcases hstep _ with ⟨hpurge, rfl, hgroup⟩ | ⟨e', hpurge, hnext⟩
    · rw [hpurge, ← hgroup]
      exact hrest
    · rw [hpurge]
      exact .cons trivial hnext hrest

/-- Two histories with the same events of the group lead it to the same programs, and to shared
states that look the same to it. -/
theorem eq_of_purge (hU : Unwinding S C J tagOf keep R) (h : S.Performs C c es d)
    (h' : S.Performs C c es' d') (hJ : J c) (hR : R c.world v)
    (hes : purge tagOf keep (c.procs.map Proc.tag) es =
      purge tagOf keep (c.procs.map Proc.tag) es') :
    group keep d = group keep d' ∧ ∃ v', R d.world v' ∧ R d'.world v' := by
  obtain ⟨v₁, hR₁, hown⟩ := hU.performs h hJ hR
  obtain ⟨v₂, hR₂, hown'⟩ := hU.performs h' hJ hR
  rw [hes] at hown
  have heq := hown.unique hown'
  have hv : v₁ = v₂ := congrArg Pool.world heq
  exact ⟨congrArg Pool.procs heq, v₁, hR₁, hv ▸ hR₂⟩

end Unwinding

end System

end Interleaved
