import Reyao.TimerNotify

/-!
# The timeout of `epoll_wait` (`worker.cc`, `epoller.cc`)

`Worker::idle` takes the time to the earliest timer from `getExpire`, an `int64_t`, and
hands it to `Epoller::wait`, whose parameter is an `int`: of the time that is left, only its
low 32 bits are looked at when it is cut to five seconds. `epoll_timeout_iff` says for which
times that goes well.
-/

namespace Reyao

open Lib

/-- What `Epoller::wait` hands to `epoll_wait` for the time `idle` got at `now`, after this
many calls that a signal ended: its loop then starts again with what it has. -/
def epollTimeout {F : Type} (m : TimeManager F) (now : Int) (interruptions : Nat) : Int :=
  waitTimeout^[interruptions + 1] (toInt (m.getExpire now).1)

/-- There is time left to a timer, but its low 32 bits are those of a negative `int` other
than the -1 that stands for no timer. -/
def LooksLate (now expire : Int) : Prop :=
  now ≤ expire ∧ 2 ^ 31 ≤ (expire - now) % 2 ^ 32 ∧ (expire - now) % 2 ^ 32 ≠ 2 ^ 32 - 1

theorem waitTimeout_waitTimeout (timeout : Int) :
    waitTimeout (waitTimeout timeout) = waitTimeout timeout := by
  by_cases least : -1 ≤ timeout
  · exact waitTimeout_of_bounds (waitTimeout_bounds least)
  · have same : waitTimeout timeout = timeout := by
      rw [waitTimeout, kMaxTimeout, if_pos (by omega), if_neg (by omega)]
    rw [same, same]

/-- A signal does not change the timeout. -/
theorem epollTimeout_eq {F : Type} (m : TimeManager F) (now : Int) (interruptions : Nat) :
    epollTimeout m now interruptions = waitTimeout (toInt (m.getExpire now).1) := by
  rw [epollTimeout]
  induction interruptions with
  | zero => rfl
  | succ interruptions ih => rw [Function.iterate_succ_apply', ih, waitTimeout_waitTimeout]

theorem waitTimeout_le_kMaxTimeout (timeout : Int) : waitTimeout timeout ≤ kMaxTimeout := by
  rw [waitTimeout]
  split
  · split <;> omega
  · exact le_refl _

/-- The conversions keep a time at or above -1 exactly when its low 32 bits do. -/
theorem waitTimeout_nonneg_iff {now expire : Int} (ahead : now ≤ expire) :
    0 ≤ waitTimeout (toInt (toInt64 (expire - now))) ↔ ¬LooksLate now expire := by
  rw [LooksLate, waitTimeout, kMaxTimeout, toInt, toInt64, Int.bmod_def, Int.bmod_def]
  split
  · split <;> omega
  · omega

section

variable {F : Type} {m : TimeManager F}

/-- **When the timeout of `epoll_wait` is one.** For every timer set that calls can lead to,
every clock reading and any number of signals, the timeout handed to `epoll_wait` is between
0 and 5000 and no longer than the time left to any timer, exactly when the time left to the
earliest timer does not look negative as an `int`. -/
theorem epoll_timeout_iff {calls : List (TimerCall F)} (run : Run CallStep .init calls m)
    (now : Int) (interruptions : Nat) :
    (0 ≤ epollTimeout m now interruptions ∧ epollTimeout m now interruptions ≤ 5000 ∧
        ∀ t ∈ m.timers, epollTimeout m now interruptions ≤ max 0 ((m.heap t).expire - now)) ↔
      ∀ first ∈ m.timers.head?, ¬LooksLate now (m.heap first).expire := by
  have ordered : m.Ordered [] := run.invariant (I := fun m => m.Ordered [])
    TimeManager.held_init.ordered fun ordered step => ordered.call step
  rw [epollTimeout_eq]
  cases members : m.timers with
  | nil =>
      have none_left : (m.getExpire now).1 = -1 := by
        simp only [TimeManager.getExpire, members]
      have longest : waitTimeout (toInt (-1)) = 5000 := rfl
      simp only [List.head?_nil, Option.not_mem_none, List.not_mem_nil, none_left, longest]
      constructor
      · intro _ first none_there
        exact none_there.elim
      · intro _
        exact ⟨by decide, le_refl _, fun t none_there => none_there.elim⟩
  | cons first rest =>
      have first_le := ordered.first_le members
      rw [members] at first_le
      have left : (m.getExpire now).1 = if now > (m.heap first).expire then 0
          else toInt64 ((m.heap first).expire - now) := by
        simp only [TimeManager.getExpire, members]
        split <;> rfl
      simp only [List.head?_cons, Option.mem_some_iff, forall_eq', left]
      by_cases past : now > (m.heap first).expire
      · have zero : waitTimeout (toInt 0) = 0 := rfl
        rw [if_pos past, zero]
        constructor
        · rintro - ⟨ahead, -⟩
          omega
        · intro _
          exact ⟨le_refl _, by decide, fun t _ => le_max_left _ _⟩
      · have ahead : now ≤ (m.heap first).expire := by omega
        rw [if_neg past, ← waitTimeout_nonneg_iff ahead]
        constructor
        · intro bounds
          exact bounds.1
        · intro nonneg
          have short := waitTimeout_le (show 0 ≤ (m.heap first).expire - now by omega)
          refine ⟨nonneg, waitTimeout_le_kMaxTimeout _, ?_⟩
          intro t member
          have later := first_le t member
          omega

end

/-- A timer in ten seconds. -/
def tenSeconds : List (TimerCall Nat) := [.addTimer 64 0 10000 (some 7) false]

theorem epoll_timeout_of_tenSeconds : ∃ m : TimeManager Nat, Run CallStep .init tenSeconds m ∧
    0 ≤ epollTimeout m 8000 0 ∧ epollTimeout m 8000 0 ≤ 5000 ∧
    ∀ t ∈ m.timers, epollTimeout m 8000 0 ≤ max 0 ((m.heap t).expire - 8000) := by
  have run : Run CallStep (.init : TimeManager Nat) tenSeconds _ := Run.single ⟨by decide, rfl⟩
  refine ⟨_, run, (epoll_timeout_iff run 8000 0).mpr ?_⟩
  intro first member late
  cases member
  exact absurd late.2.1 (by decide)

/-- A timer in `2^31` milliseconds, about 25 days. -/
def twentyFiveDays : List (TimerCall Nat) := [.addTimer 64 0 (2 ^ 31) (some 7) false]

/-- `epoll_wait` is called with a negative timeout. -/
theorem epoll_timeout_of_twentyFiveDays : ∃ m : TimeManager Nat,
    Run CallStep .init twentyFiveDays m ∧ epollTimeout m 0 0 = -2 ^ 31 ∧
    ¬(0 ≤ epollTimeout m 0 0) := by
  have run : Run CallStep (.init : TimeManager Nat) twentyFiveDays _ := Run.single ⟨by decide, rfl⟩
  exact ⟨_, run, by decide, by decide⟩

end Reyao
