import TransactionPlatform.Worker.Fleet

/-!
# Stopping a worker

A signal only sets a flag that is tested at the head of the loop, and no exception behind
`ensure_group` leaves the loop.  So a worker stops when it has been signalled and not before:
`worker_stops_iff_signalled`.  Behind a signal it still goes through the entries it has in hand and
through those that the rest of the iteration brings.  That this ends follows from a well-founded
order on the points of the loop; there is no bound in advance, since a call of `process_entry` is as
long as its file.
-/

namespace TransactionPlatform

open Interleaved ConsumerGroup

variable {py : Python} {files : String → Option Csv}

/-- A worker that has been signalled can step from `ctl` to `ctl'`, under some fault and on some
backend. -/
def StepsTo (py : Python) (files : String → Option Csv) (s : WorkerSettings) (ctl' ctl : Control) :
    Prop :=
  ∃ f b b', WorkerProcess.step py files ⟨s, true, ctl⟩ f b = some (b', ctl')

section Order

variable {s : WorkerSettings}

theorem acc_stopped : Acc (StepsTo py files s) .stopped := by
  refine ⟨_, fun ctl' h => ?_⟩
  obtain ⟨f, b, b', hs⟩ := h
  cases hs

theorem acc_test : Acc (StepsTo py files s) .test := by
  refine ⟨_, fun ctl' h => ?_⟩
  obtain ⟨f, b, b', hs⟩ := h
  cases hs
  exact acc_stopped

theorem acc_sleep : Acc (StepsTo py files s) .sleep := by
  refine ⟨_, fun ctl' h => ?_⟩
  obtain ⟨f, b, b', hs⟩ := h
  cases hs
  exact acc_test

/-- A call of `process_entry` ends, by induction on the program. -/
theorem acc_process {src : Source} {t : Attempt} {rest : List (ℕ × Uuid)}
    (hrest : Acc (StepsTo py files s) (s.loop py src rest)) (p : EntryCall) :
    Acc (StepsTo py files s) (.process src t p rest) := by
  induction p with
  | done r =>
    refine ⟨_, fun ctl' h => ?_⟩
    obtain ⟨f, b, b', hs⟩ := h
    cases r with
    | ok u =>
      cases hs
      exact hrest
    | error e =>
      cases hs
      exact acc_sleep
  | call o k ih =>
    refine ⟨_, fun ctl' h => ?_⟩
    obtain ⟨f, b, b', hs⟩ := h
    cases hs
    exact ih _

/-- A `for` loop ends, by induction on the entries. -/
theorem acc_loop {src : Source} (hend : Acc (StepsTo py files s) (s.loop py src []))
    (xs : List (ℕ × Uuid)) : Acc (StepsTo py files s) (s.loop py src xs) := by
  induction xs with
  | nil => exact hend
  | cons x rest ih => exact acc_process ih _

theorem acc_handle {src : Source} (hend : Acc (StepsTo py files s) (s.loop py src []))
    (r : Except Exn (List (ℕ × Uuid))) : Acc (StepsTo py files s) (s.handle py src r) := by
  cases r with
  | ok xs => exact acc_loop hend xs
  | error e => exact acc_sleep

theorem acc_read : Acc (StepsTo py files s) .read := by
  refine ⟨_, fun ctl' h => ?_⟩
  obtain ⟨f, b, b', hs⟩ := h
  cases hs
  exact acc_handle acc_test _

theorem acc_reclaim : Acc (StepsTo py files s) .reclaim := by
  refine ⟨_, fun ctl' h => ?_⟩
  obtain ⟨f, b, b', hs⟩ := h
  cases hs
  exact acc_handle acc_read _

/-- A worker that has been signalled cannot step for ever, whatever fails and whatever others do to
the backend in between. -/
theorem stepsTo_wellFounded (py : Python) (files : String → Option Csv) (s : WorkerSettings) :
    WellFounded (StepsTo py files s) := by
  refine ⟨fun ctl => ?_⟩
  cases ctl with
  | stopped => exact acc_stopped
  | test => exact acc_test
  | sleep => exact acc_sleep
  | read => exact acc_read
  | reclaim => exact acc_reclaim
  | process src t p rest =>
    refine acc_process (acc_loop ?_ rest) p
    cases src with
    | reclaimed => exact acc_read
    | new => exact acc_test
  | starting =>
    refine ⟨_, fun ctl' h => ?_⟩
    obtain ⟨f, b, b', hs⟩ := h
    simp only [WorkerProcess.step] at hs
    split at hs <;> cases hs
    · exact acc_test
    · exact acc_stopped

end Order

/-! ### Runs of a fleet -/

/-- What an event does to the `i`-th worker. -/
theorem Fleet.next_worker {c c' : Fleet} {e : FleetEvent} {i : ℕ} {p : WorkerProcess}
    (hn : (fleet py files).next c e = some c') (hp : c.workers[i]? = some p) :
    ∃ p', c'.workers[i]? = some p' ∧ p'.settings = p.settings ∧
      ((∃ f b, e = .step i f ∧ p.step py files f c.backend = some (b, p'.control) ∧
          p'.shutdown = p.shutdown) ∨
        (e = .signal i ∧ p'.control = p.control ∧ p'.shutdown = true) ∨
        (e = .kill i ∧ p'.control = .stopped) ∨
        ((∀ f, e ≠ .step i f) ∧ e ≠ .signal i ∧ e ≠ .kill i ∧ p' = p)) := by
  obtain ⟨hlt, -⟩ := List.getElem?_eq_some_iff.mp hp
  -- replacing another worker leaves this one alone
  have hother : ∀ (j : ℕ) (q : WorkerProcess), j ≠ i → (c.workers.set j q)[i]? = some p :=
    fun j q hj => (List.getElem?_set_ne hj).trans hp
  have hself : ∀ q : WorkerProcess, (c.workers.set i q)[i]? = some q :=
    fun q => List.getElem?_set_self hlt
  rcases Fleet.next_cases hn with ⟨j, f, q, b, ctl, rfl, hq, hs, rfl⟩ | ⟨j, q, rfl, hq, rfl⟩ |
    ⟨j, q, rfl, hq, rfl⟩ | ⟨s, rfl, rfl⟩ | ⟨id, clientId, name, path, key, rfl, -, rfl⟩ |
    ⟨rfl, rfl⟩ | ⟨id, rfl, -, -, rfl⟩ | ⟨ms, rfl, rfl⟩
  · by_cases hj : j = i
    · subst hj
      rw [hp] at hq
      cases hq
      exact ⟨_, hself _, rfl, .inl ⟨f, b, rfl, hs, rfl⟩⟩
    · exact ⟨p, hother j _ hj, rfl, .inr (.inr (.inr ⟨fun f' h => hj (by cases h; rfl),
        fun h => (by cases h), fun h => (by cases h), rfl⟩))⟩
  · by_cases hj : j = i
    · subst hj
      rw [hp] at hq
      cases hq
      exact ⟨_, hself _, rfl, .inr (.inl ⟨rfl, rfl, rfl⟩)⟩
    · exact ⟨p, hother j _ hj, rfl, .inr (.inr (.inr ⟨fun f' h => (by cases h),
        fun h => hj (by cases h; rfl), fun h => (by cases h), rfl⟩))⟩
  · by_cases hj : j = i
    · subst hj
      rw [hp] at hq
      cases hq
      exact ⟨_, hself _, rfl, .inr (.inr (.inl ⟨rfl, rfl⟩))⟩
    · exact ⟨p, hother j _ hj, rfl, .inr (.inr (.inr ⟨fun f' h => (by cases h),
        fun h => (by cases h), fun h => hj (by cases h; rfl), rfl⟩))⟩
  all_goals
    refine ⟨p, ?_, rfl, .inr (.inr (.inr ⟨fun f' h => (by cases h), fun h => (by cases h),
      fun h => (by cases h), rfl⟩))⟩
  · exact (List.getElem?_append_left hlt).trans hp
  · exact hp
  · exact hp
  · exact hp
  · exact hp

/-- A worker that has not been signalled and is past `ensure_group` stays in the loop, whatever
fails. -/
theorem WorkerProcess.step_survives {p : WorkerProcess} {f : Fault} {b b' : Backend} {ctl : Control}
    (hs : p.step py files f b = some (b', ctl)) (hsd : p.shutdown = false)
    (hpast : p.control ≠ .starting) : ctl ≠ .stopped ∧ ctl ≠ .starting := by
  obtain ⟨s, sd, pc⟩ := p
  obtain rfl : sd = false := hsd
  have hloop : ∀ src xs, s.loop py src xs ≠ .stopped ∧ s.loop py src xs ≠ .starting := by
    intro src xs
    cases xs with
    | nil => cases src <;> exact ⟨fun h => (by cases h), fun h => by cases h⟩
    | cons x rest => exact ⟨fun h => (by cases h), fun h => by cases h⟩
  have hhandle : ∀ src r, s.handle py src r ≠ .stopped ∧ s.handle py src r ≠ .starting := by
    intro src r
    cases r with
    | ok xs => exact hloop src xs
    | error e => exact ⟨fun h => (by cases h), fun h => by cases h⟩
  cases pc with
  | starting => exact absurd rfl hpast
  | stopped => cases hs
  | test =>
    cases hs
    exact ⟨fun h => (by cases h), fun h => by cases h⟩
  | sleep =>
    cases hs
    exact ⟨fun h => (by cases h), fun h => by cases h⟩
  | reclaim =>
    cases hs
    exact hhandle _ _
  | read =>
    cases hs
    exact hhandle _ _
  | process src t q rest =>
    cases q with
    | call o k =>
      cases hs
      exact ⟨fun h => (by cases h), fun h => by cases h⟩
    | done r =>
      cases r with
      | ok u =>
        cases hs
        exact hloop _ _
      | error e =>
        cases hs
        exact ⟨fun h => (by cases h), fun h => by cases h⟩

section Runs

variable (run : (fleet py files).Run) {i : ℕ}

/-- The `i`-th worker stays where it is until it takes a step; once signalled it stays so. -/
theorem worker_waits {n : ℕ} {p : WorkerProcess} (hkill : ∀ n, run.event n ≠ .kill i)
    (hp : (run.state n).workers[i]? = some p) (hsd : p.shutdown = true) {m : ℕ} (hm : n ≤ m)
    (hnone : ∀ k, n ≤ k → k < m → ∀ f, run.event k ≠ .step i f) :
    ∃ q, (run.state m).workers[i]? = some q ∧ q.settings = p.settings ∧ q.shutdown = true ∧
      q.control = p.control := by
  induction m, hm using Nat.le_induction with
  | base => exact ⟨p, hp, rfl, hsd, rfl⟩
  | succ m hm ih =>
    obtain ⟨q, hq, hset, hqsd, hctl⟩ :=
      ih fun k hk hkm => hnone k hk (Nat.lt_succ_of_lt hkm)
    obtain ⟨q', hq', hset', hcases⟩ := Fleet.next_worker (run.step m) hq
    rcases hcases with ⟨f, b, he, -, -⟩ | ⟨-, hctl', hsd'⟩ | ⟨he, -⟩ | ⟨-, -, -, rfl⟩
    · exact absurd he (hnone m hm (Nat.lt_succ_self m) f)
    · exact ⟨q', hq', hset'.trans hset, hsd', hctl'.trans hctl⟩
    · exact absurd he (hkill m)
    · exact ⟨q', hq', hset, hqsd, hctl⟩

/-- A worker that has been signalled stops. -/
theorem exists_stopped (hkill : ∀ n, run.event n ≠ .kill i)
    (hfair : ∀ n p, (run.state n).workers[i]? = some p → p.control ≠ .stopped →
      ∃ m, n ≤ m ∧ ∃ f, run.event m = .step i f) (s : WorkerSettings) (ctl : Control) :
    ∀ n p, (run.state n).workers[i]? = some p → p.settings = s → p.shutdown = true →
      p.control = ctl → ∃ m q, (run.state m).workers[i]? = some q ∧ q.control = .stopped := by
  induction ctl using (stepsTo_wellFounded py files s).induction with
  | _ ctl ih =>
    intro n p hp hset hsd hctl
    by_cases hstop : p.control = .stopped
    · exact ⟨n, p, hp, hstop⟩
    · -- the first step the worker takes from now on
      obtain ⟨m, hnm, f, he, hnone⟩ : ∃ m, n ≤ m ∧ ∃ f, run.event m = .step i f ∧
          ∀ k, n ≤ k → k < m → ∀ f, run.event k ≠ .step i f := by
        classical
        have hex := hfair n p hp hstop
        obtain ⟨hnm, f, he⟩ := Nat.find_spec hex
        exact ⟨Nat.find hex, hnm, f, he,
          fun k hk hlt f hf => Nat.find_min hex hlt ⟨hk, f, hf⟩⟩
      obtain ⟨q, hq, hqset, hqsd, hqctl⟩ := worker_waits run hkill hp hsd hnm hnone
      obtain ⟨q', hq', hset', hcases⟩ := Fleet.next_worker (run.step m) hq
      rcases hcases with ⟨f', b, -, hs, hsd'⟩ | ⟨he', -, -⟩ | ⟨he', -⟩ | ⟨hno, -, -, -⟩
      · have hstep : StepsTo py files s q'.control ctl := by
          obtain ⟨qs, qsd, qc⟩ := q
          obtain rfl : qs = s := hqset.trans hset
          obtain rfl : qsd = true := hqsd
          obtain rfl : qc = ctl := hqctl.trans hctl
          exact ⟨f', (run.state m).backend, b, hs⟩
        exact ih q'.control hstep (m + 1) q' hq' (hset'.trans (hqset.trans hset))
          (hsd'.trans hqsd) rfl
      · rw [he] at he'
        cases he'
      · rw [he] at he'
        cases he'
      · exact absurd he (hno f)

/-- A worker that is never signalled stays in the loop. -/
theorem worker_survives {p₀ : WorkerProcess} (hkill : ∀ n, run.event n ≠ .kill i)
    (hp : (run.state 0).workers[i]? = some p₀) (hpast : p₀.control ≠ .starting)
    (hrun : p₀.control ≠ .stopped) (hsd : p₀.shutdown = false)
    (hsignal : ∀ n, run.event n ≠ .signal i) (n : ℕ) :
    ∃ p, (run.state n).workers[i]? = some p ∧ p.shutdown = false ∧ p.control ≠ .starting ∧
      p.control ≠ .stopped := by
  induction n with
  | zero => exact ⟨p₀, hp, hsd, hpast, hrun⟩
  | succ n ih =>
    obtain ⟨p, hp, hsd, hpast, hrun⟩ := ih
    obtain ⟨p', hp', -, hcases⟩ := Fleet.next_worker (run.step n) hp
    rcases hcases with ⟨f, b, -, hs, hsd'⟩ | ⟨he, -, -⟩ | ⟨he, -⟩ | ⟨-, -, -, rfl⟩
    · obtain ⟨h1, h2⟩ := WorkerProcess.step_survives hs hsd hpast
      exact ⟨p', hp', hsd'.trans hsd, h2, h1⟩
    · exact absurd he (hsignal n)
    · exact absurd he (hkill n)
    · exact ⟨p', hp', hsd, hpast, hrun⟩

/-- In every infinite run of a fleet, whatever fails and whatever the other workers do, a worker that
is past `ensure_group`, is not killed and gets to take steps as long as it runs, stops if and only if
it is signalled. -/
theorem worker_stops_iff_signalled {p₀ : WorkerProcess} (hkill : ∀ n, run.event n ≠ .kill i)
    (hfair : ∀ n p, (run.state n).workers[i]? = some p → p.control ≠ .stopped →
      ∃ m, n ≤ m ∧ ∃ f, run.event m = .step i f)
    (hp : (run.state 0).workers[i]? = some p₀) (hpast : p₀.control ≠ .starting)
    (hrun : p₀.control ≠ .stopped) :
    (∃ n p, (run.state n).workers[i]? = some p ∧ p.control = .stopped) ↔
      p₀.shutdown = true ∨ ∃ n, run.event n = .signal i := by
  constructor
  · rintro ⟨n, p, hpn, hstop⟩
    by_contra hnot
    obtain ⟨hsd, hsignal⟩ := not_or.mp hnot
    rw [Bool.not_eq_true] at hsd
    obtain ⟨q, hq, -, -, hne⟩ := worker_survives run hkill hp hpast hrun hsd
      (fun n he => hsignal ⟨n, he⟩) n
    rw [hpn] at hq
    cases hq
    exact hne hstop
  · rintro (hsd | ⟨n, he⟩)
    · exact exists_stopped run hkill hfair p₀.settings p₀.control 0 p₀ hp rfl hsd rfl
    · -- the worker is still there when the signal comes
      have hthere : ∀ n, ∃ p, (run.state n).workers[i]? = some p := by
        intro n
        induction n with
        | zero => exact ⟨p₀, hp⟩
        | succ n ih =>
          obtain ⟨p, hp⟩ := ih
          obtain ⟨p', hp', -⟩ := Fleet.next_worker (run.step n) hp
          exact ⟨p', hp'⟩
      obtain ⟨p, hp⟩ := hthere n
      obtain ⟨p', hp', -, hcases⟩ := Fleet.next_worker (run.step n) hp
      rcases hcases with ⟨f, b, he', -, -⟩ | ⟨-, -, hsd'⟩ | ⟨he', -⟩ | ⟨-, hno, -, -⟩
      · rw [he] at he'
        cases he'
      · exact exists_stopped run hkill hfair p'.settings p'.control (n + 1) p' hp' rfl hsd' rfl
      · exact absurd he' (hkill n)
      · exact absurd he hno

end Runs

/-- A fleet whose only worker is signalled at the head of the loop: it stops, and time goes on. -/
def sampleStop : (fleet .ascii (sampleFiles sampleCsv)).Run where
  state
    | 0 => ⟨sampleBackend, [⟨sampleSettings, false, .test⟩]⟩
    | 1 => ⟨sampleBackend, [⟨sampleSettings, true, .test⟩]⟩
    | _ + 2 => ⟨sampleBackend, [⟨sampleSettings, true, .stopped⟩]⟩
  event
    | 0 => .signal 0
    | 1 => .step 0 .ok
    | _ + 2 => .tick 0
  step
    | 0 => rfl
    | 1 => rfl
    | _ + 2 => rfl

theorem sample_worker_stops :
    ∃ n p, (sampleStop.state n).workers[0]? = some p ∧ p.control = .stopped := by
  have hkill : ∀ n, sampleStop.event n ≠ .kill 0 := by
    intro n h
    match n with
    | 0 => cases h
    | 1 => cases h
    | _ + 2 => cases h
  have hfair : ∀ n p, (sampleStop.state n).workers[0]? = some p → p.control ≠ .stopped →
      ∃ m, n ≤ m ∧ ∃ f, sampleStop.event m = .step 0 f := by
    intro n p hp hrun
    match n with
    | 0 => exact ⟨1, by omega, .ok, rfl⟩
    | 1 => exact ⟨1, by omega, .ok, rfl⟩
    | _ + 2 =>
      cases hp
      exact absurd rfl hrun
  exact (worker_stops_iff_signalled sampleStop hkill hfair rfl (fun h => by cases h)
    (fun h => by cases h)).mpr (.inr ⟨0, rfl⟩)

end TransactionPlatform
