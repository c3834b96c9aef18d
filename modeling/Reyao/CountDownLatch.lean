import Mathlib.Algebra.Order.Ring.Int
import Reyao.Lib.Monitor

/-!
# The latch (`mutex.cc`)

`CountDownLatch` is a counter under a mutex with a condition variable. `Thread::start`
and the scheduler hold their callers back with it: a latch of one is a gate that opens
once (`latch_gate`).

`count_` is an `int` that each `countDown` makes less. It is unbounded here, as it is for
fewer than `2^31` calls of `countDown`.
-/

namespace Reyao

open Lib

inductive LatchCall : Type
  | wait
  | countDown
  deriving DecidableEq

namespace CountDownLatch

/-- `while (count_ > 0) cond_.wait();` -/
def wait : Procedure Int where
  guard count := !decide (0 < count)
  body := id
  wakes _ := false

/-- `if (--count_ == 0) cond_.notifyAll();`, where `count_` does not overflow. -/
def countDown : Procedure Int where
  guard _ := true
  body count := count - 1
  wakes count := count == 0

def procedure : LatchCall → Procedure Int
  | .wait => wait
  | .countDown => countDown

/-- A latch, and the calls made of it. -/
abbrev Latch := Monitor Int LatchCall

/-- `CountDownLatch(count)`. -/
def new (count : Int) : Latch := { shared := count }

abbrev step : Latch → MonitorLabel LatchCall → Option Latch := Monitor.step procedure

/-- How often `countDown` is among these. -/
def downs (ks : List LatchCall) : Nat := ks.countP (· == .countDown)

theorem downs_snoc (ks : List LatchCall) (k : LatchCall) :
    downs (ks ++ [k]) = downs ks + if k = .countDown then 1 else 0 := by
  unfold downs
  rw [List.countP_append, List.countP_singleton]
  cases k <;> rfl

variable {count : Int} {s t : Latch} {es : List (MonitorLabel LatchCall)}

/-! ## Nobody passes early -/

/-- The counter of atomic calls. -/
theorem atomic_count {d d' : Int} {ks : List LatchCall}
    (run : Run (Monitor.Atomic procedure) d ks d') : d' = d - downs ks := by
  induction run with
  | nil => exact (sub_zero _).symm
  | @snoc m d' ks k prior last ih =>
      rw [downs_snoc]
      cases k with
      | wait =>
          have same : d' = m := last.2
          rw [if_neg LatchCall.noConfusion, same, ih, Nat.add_zero]
      | countDown =>
          have less : d' = m - 1 := last.2
          rw [if_pos rfl, less, ih]
          omega

/-- A `wait` takes effect after all the `countDown`s there have to be. -/
theorem atomic_wait {d d' : Int} {before after : List LatchCall}
    (run : Run (Monitor.Atomic procedure) d (before ++ .wait :: after) d') : d ≤ downs before := by
  obtain ⟨m, m', prior, ⟨open_, -⟩, -⟩ := run.split
  have low : ¬0 < m := by
    simpa [procedure, wait] using open_
  have value := atomic_count prior
  omega

/-- In any order of steps of any number of calls (of `countDown` fewer than `2^31`, for an `int`)
the counter is short of its first value by the `countDown`s that have been counted, of which each
call is one at most, and a `wait` that has returned passed after `count` of them. -/
theorem latch_passes (run : Run (Steps step) (new count) es s) :
    s.done.Nodup ∧ s.shared = count - downs (s.done.map Prod.snd) ∧
      ∀ i, s.At i .wait .returned → ∃ before after,
        s.done = before ++ (i, .wait) :: after ∧ count ≤ downs (before.map Prod.snd) := by
  have sound := Monitor.Sound.run run
  refine ⟨sound.once, atomic_count sound.atomic, fun i returned => ?_⟩
  have member : (i, .wait) ∈ s.done := sound.effected.mpr ⟨.returned, returned, rfl⟩
  obtain ⟨before, after, cut⟩ := List.append_of_mem member
  have atomic := sound.atomic
  rw [cut, List.map_append, List.map_cons] at atomic
  exact ⟨before, after, cut, atomic_wait atomic⟩

/-- A `wait` that goes to sleep, and the `countDown` it waits for. -/
def sleeps : List (MonitorLabel LatchCall) :=
  [.call .wait, .lock 0, .test 0, .call .countDown, .lock 1]

/-- The rest of the two calls. -/
def wakes : List (MonitorLabel LatchCall) :=
  [.test 1, .notifyAll 1, .unlock 1, .lock 0, .test 0, .unlock 0]

theorem wakes_leaves : (exec step (new 1) (sleeps ++ wakes)).map Monitor.calls =
    some [(.wait, .returned), (.countDown, .returned)] := by
  decide

theorem latch_passes_one : ∃ s : Latch, s.At 0 .wait .returned ∧ ∃ before after,
    s.done = before ++ (0, .wait) :: after ∧ (1 : Int) ≤ downs (before.map Prod.snd) := by
  obtain ⟨s, ran, left⟩ := Option.map_eq_some_iff.mp wakes_leaves
  have returned : s.At 0 .wait .returned := by
    unfold Monitor.At
    rw [left]
    rfl
  exact ⟨s, returned, (latch_passes (run_of_exec ran)).2.2 0 returned⟩

/-! ## Nobody is left behind -/

theorem announces : Monitor.Announces procedure := by
  intro k k' d holds fails after
  cases k with
  | wait => exact absurd after (by rw [show (procedure .wait).body d = d from rfl, fails]; decide)
  | countDown =>
      cases k' with
      | countDown => cases fails
      | wait =>
          have positive : 0 < d := by simpa [procedure, wait] using fails
          have low : ¬0 < d - 1 := by simpa [procedure, wait, countDown] using after
          have last : d - 1 = 0 := by omega
          exact beq_iff_eq.mpr last

/-- How many calls of `countDown` have been made. -/
def asked (s : Latch) : Nat := downs (s.calls.map Prod.fst)

/-- Where all calls of `countDown` have returned, all of them have been counted. -/
theorem downs_done (counted : s.Counted)
    (over_ : ∀ i p, s.At i .countDown p → p.effected = true) :
    downs (s.done.map Prod.snd) = asked s := by
  have same := counted (· == .countDown)
  unfold asked downs
  rw [List.countP_map, List.countP_map]
  refine same.trans (List.countP_congr fun c member => ?_)
  obtain ⟨i, small, here⟩ := List.getElem_of_mem member
  rcases c with ⟨k, p⟩
  cases k with
  | wait => exact iff_of_false Bool.noConfusion Bool.noConfusion
  | countDown =>
      have effected := over_ i p (List.getElem?_eq_some_iff.mpr ⟨small, here⟩)
      simp [effected]

/-- From wherever they are, the calls come to rest in a bounded number of steps of theirs.
At rest the mutex is free and all calls have returned, or fewer calls of `countDown` than
`count` have been made and exactly the `wait`s are asleep. -/
theorem latch_rests (run : Run (Steps step) (new count) es s) {fs : List (MonitorLabel LatchCall)}
    (goes : Run (Steps step) s fs t) (internal : ∀ e ∈ fs, e.internal = true) :
    fs.length ≤ s.calls.length * (2 * s.calls.length + 4) ∧
      (Monitor.Quiet procedure t → t.holder = none ∧ ∀ i k p, t.At i k p →
        p = .returned ∨ (k = .wait ∧ p = .asleep ∧ (asked t : Int) < count)) := by
  have bound := Monitor.rank_run goes internal
  have most := s.rank_le
  refine ⟨by omega, fun quiet => ?_⟩
  have whole := run.append goes
  have sound := Monitor.Sound.run whole
  obtain ⟨free, rest⟩ := Monitor.quiet_calls sound (Monitor.Attends.run announces whole) quiet
  have over_ : ∀ i p, t.At i .countDown p → p.effected = true := by
    intro i p here
    rcases rest i _ p here with rfl | ⟨-, impossible⟩
    · rfl
    · cases impossible
  refine ⟨free, fun i k p here => ?_⟩
  rcases rest i k p here with returned | ⟨asleep, fails⟩
  · exact Or.inl returned
  · cases k with
    | countDown => cases fails
    | wait =>
        have positive : 0 < t.shared := by simpa [procedure, wait] using fails
        have value := atomic_count sound.atomic
        rw [downs_done (Monitor.Counted.run whole) over_] at value
        exact Or.inr ⟨rfl, asleep, by omega⟩

/-- All calls have returned. -/
theorem quiet_of_returned (calls : t.calls = [(.wait, .returned), (.countDown, .returned)]) :
    Monitor.Quiet procedure t := by
  intro e internal
  have none_at : ∀ i : Nat, t.calls[i]? = some (LatchCall.wait, Place.returned) ∨
      t.calls[i]? = some (LatchCall.countDown, Place.returned) ∨ t.calls[i]? = none := by
    intro i
    rw [calls]
    rcases i with _ | _ | i
    · exact Or.inl rfl
    · exact Or.inr (Or.inl rfl)
    · exact Or.inr (Or.inr rfl)
  cases e with
  | call => cases internal
  | spurious => cases internal
  | lock i => rcases none_at i with here | here | here <;> simp only [Monitor.step, here]
  | test i => rcases none_at i with here | here | here <;> simp only [Monitor.step, here]
  | notifyAll i => rcases none_at i with here | here | here <;> simp only [Monitor.step, here]
  | unlock i => rcases none_at i with here | here | here <;> simp only [Monitor.step, here]

theorem latch_rests_one : ∃ s t : Latch, Run (Steps step) s wakes t ∧
    wakes.length ≤ s.calls.length * (2 * s.calls.length + 4) ∧ t.holder = none ∧
      ∀ i k p, t.At i k p → p = .returned ∨ (k = .wait ∧ p = .asleep ∧ (asked t : Int) < 1) := by
  obtain ⟨t, whole, left⟩ := Option.map_eq_some_iff.mp wakes_leaves
  obtain ⟨s, first, rest⟩ := exec_append whole
  have bound := latch_rests (run_of_exec first) (run_of_exec rest) (by decide)
  exact ⟨s, t, run_of_exec rest, bound.1, bound.2 (quiet_of_returned left)⟩

/-! ## A gate -/

/-- What a latch of one is for: `wait` passes an open gate, and `countDown` opens it. -/
inductive Gate : Bool → LatchCall → Bool → Prop
  | pass : Gate true .wait true
  | opens (before : Bool) : Gate before .countDown true

theorem gate_of_atomic {d d' : Int} {k : LatchCall} (low : d ≤ 1)
    (atomic : Monitor.Atomic procedure d k d') : Gate (decide (d ≤ 0)) k (decide (d' ≤ 0)) := by
  obtain ⟨holds, rfl⟩ := atomic
  cases k with
  | wait =>
      have open_ : ¬0 < d := by simpa [procedure, wait] using holds
      have passes : decide (d ≤ 0) = true := decide_eq_true (by omega)
      change Gate (decide (d ≤ 0)) .wait (decide (d ≤ 0))
      rw [passes]
      exact .pass
  | countDown =>
      have opened : decide (d - 1 ≤ 0) = true := decide_eq_true (by omega)
      change Gate _ .countDown (decide (d - 1 ≤ 0))
      rw [opened]
      exact .opens _

/-- A latch of one, however its calls interleave, is a gate. -/
theorem latch_gate (run : Run (Steps step) (new 1) es s) :
    Run Gate false (s.done.map Prod.snd) (decide (s.shared ≤ 0)) := by
  have atomic := (Monitor.Sound.run run).atomic
  obtain ⟨b, replay, -, same⟩ := atomic.simulate
    (A := Gate) (R := fun d b => d ≤ 1 ∧ b = decide (d ≤ 0)) ⟨le_refl _, rfl⟩
    (fun {d k d' b} related atomic => by
      obtain ⟨low, rfl⟩ := related
      refine ⟨_, gate_of_atomic low atomic, ?_, rfl⟩
      obtain ⟨-, rfl⟩ := atomic
      cases k with
      | wait => exact low
      | countDown =>
          change d - 1 ≤ 1
          omega)
  rw [← same]
  exact replay

theorem latch_gate_one : ∃ s : Latch, s.At 0 .wait .returned ∧
    Run Gate false (s.done.map Prod.snd) (decide (s.shared ≤ 0)) := by
  obtain ⟨s, ran, left⟩ := Option.map_eq_some_iff.mp wakes_leaves
  refine ⟨s, ?_, latch_gate (run_of_exec ran)⟩
  unfold Monitor.At
  rw [left]
  rfl

end CountDownLatch

end Reyao
