import Reyao.TimerNotify
import Reyao.TimerReset

/-!
# Who tells of an earlier timer (`timer.cc`)

Only `addTimer` and `reset` call `timerInsertAtFront`. That is enough as long as `refresh` and
`expiredFunctions` put no timer before all others, and they put a timer at the reading plus
its interval: no earlier than where it was, since it was armed no later than now, unless the
sum does not fit an `int64_t`.
-/

namespace Reyao

open Lib

variable {F : Type}

/-- The timers and the time. -/
structure TimedSet (F : Type) : Type where
  manager : TimeManager F := .init
  /-- Starts before every value of `int64_t` the clock can have. -/
  clock : Int := -2 ^ 63

/-- A call at a time that is not before the last one, with an interval that is not negative;
both fit `int64_t`. -/
structure TimedStep (s : TimedSet F) (call : TimerCall F) (s' : TimedSet F) : Prop where
  called : CallStep s.manager call s'.manager
  forward : s.clock ≤ s'.clock
  fits : s'.clock < 2 ^ 63
  reads : ∀ now ∈ call.reading, now = s'.clock
  interval : ∀ i ∈ call.interval, 0 ≤ i ∧ i < 2 ^ 63

namespace TimeManager

variable {m m' : TimeManager F} {t : TimerPtr} {now : Int}

/-- `x` is the earliest `expire_` of the set. -/
def Earliest (m : TimeManager F) (x : Int) : Prop :=
  (∃ t ∈ m.timers, (m.heap t).expire = x) ∧ ∀ t ∈ m.timers, x ≤ (m.heap t).expire

/-- The earliest `expire_` has become smaller, or the set was empty and is not any more. -/
def Forward (m m' : TimeManager F) : Prop :=
  (∃ x x', m.Earliest x ∧ m'.Earliest x' ∧ x' < x) ∨ m.timers = [] ∧ m'.timers ≠ []

/-- A timer that is put back at the reading `now` does not go before all others: the sum does
not overflow, or there is a timer no later than what comes out. -/
def Within (m : TimeManager F) (now : Int) (t : TimerPtr) : Prop :=
  now + (m.heap t).interval < 2 ^ 63 ∨
    ∃ u ∈ m.timers, (m.heap u).expire ≤ now + (m.heap t).interval - 2 ^ 64

end TimeManager

/-- The condition: the timers that `refresh` and `expiredFunctions` put back do not overflow
to the front. -/
def TimerCall.Fits (m : TimeManager F) : TimerCall F → Prop
  | other (.refresh t now) => t ∈ m.timers → m.Live t → m.Within now t
  | other (.expiredFunctions now _) =>
      ∀ t ∈ m.timers, (m.heap t).expire ≤ now → (m.heap t).recursive = true → m.Within now t
  | _ => True

namespace TimeManager

variable {m m' : TimeManager F} {t : TimerPtr} {now : Int}

theorem Ordered.exists_earliest (ordered : m.Ordered []) (some_timer : m.timers ≠ []) :
    ∃ x, m.Earliest x := by
  obtain ⟨first, rest, members⟩ := List.exists_cons_of_ne_nil some_timer
  exact ⟨_, ⟨first, by rw [members]; exact List.mem_cons_self, rfl⟩, ordered.first_le members⟩

/-- The earliest time comes forward by a timer that is before all there were. -/
theorem forward_iff (ordered : m.Ordered []) (ordered' : m'.Ordered []) :
    m.Forward m' ↔ ∃ u ∈ m'.timers, ∀ v ∈ m.timers, (m'.heap u).expire < (m.heap v).expire := by
  constructor
  · rintro (⟨x, x', ⟨-, least⟩, ⟨⟨u, member, rfl⟩, -⟩, less⟩ | ⟨empty, some_timer⟩)
    · exact ⟨u, member, fun v there => lt_of_lt_of_le less (least v there)⟩
    · obtain ⟨u, member⟩ := List.exists_mem_of_ne_nil _ some_timer
      refine ⟨u, member, fun v there => ?_⟩
      rw [empty] at there
      exact absurd there List.not_mem_nil
  · rintro ⟨u, member, before⟩
    have some_timer : m'.timers ≠ [] := List.ne_nil_of_mem member
    by_cases empty : m.timers = []
    · exact Or.inr ⟨empty, some_timer⟩
    · obtain ⟨x, ⟨v, there, rfl⟩, least⟩ := ordered.exists_earliest empty
      obtain ⟨x', attained, least'⟩ := ordered'.exists_earliest some_timer
      refine Or.inl ⟨_, x', ⟨⟨v, there, rfl⟩, least⟩, ⟨attained, least'⟩, ?_⟩
      exact lt_of_le_of_lt (least' u member) (before v there)

/-- Who tells of the timer that was put has told, if it is before all others. -/
theorem told_of_leaves (ordered : m.Ordered []) (ordered' : m'.Ordered []) {e : Option Int}
    (leaves : m.Leaves m' e) (told : ∀ x ∈ e, m.Told m' x) (forward : m.Forward m') :
    m.notified < m'.notified := by
  obtain ⟨u, member, before⟩ := (forward_iff ordered ordered').mp forward
  rcases leaves u member with ⟨old, same⟩ | put
  · exact absurd (before u old) (by rw [same]; exact lt_irrefl _)
  · rcases told _ put with notified | ⟨v, there, earlier⟩
    · exact notified
    · exact absurd (before v there) (not_lt.mpr earlier)

/-- A call that tells nobody must leave no timer before all there were. -/
theorem quiet_iff (ordered : m.Ordered []) (ordered' : m'.Ordered [])
    (quiet : m'.notified = m.notified) :
    (m.Forward m' → m.notified < m'.notified) ↔
      ∀ u ∈ m'.timers, ∃ v ∈ m.timers, (m.heap v).expire ≤ (m'.heap u).expire := by
  rw [forward_iff ordered ordered', quiet]
  constructor
  · intro tells u member
    by_contra before
    refine absurd (tells ⟨u, member, fun v there => ?_⟩) (lt_irrefl _)
    exact not_le.mp fun earlier => before ⟨v, there, earlier⟩
  · rintro behind ⟨u, member, before⟩
    obtain ⟨v, there, earlier⟩ := behind u member
    exact absurd (before v there) (not_lt.mpr earlier)

/-! ## Timers that are put back -/

/-- What comes out of the sum of a reading and an interval. -/
theorem toInt64_sum {now interval : Int} (low : -2 ^ 63 ≤ now) (high : now < 2 ^ 63)
    (nonneg : 0 ≤ interval) (small : interval < 2 ^ 63) :
    toInt64 (now + interval) =
      if now + interval < 2 ^ 63 then now + interval else now + interval - 2 ^ 64 := by
  rw [toInt64, Int.bmod_def]
  split <;> omega

/-- Where a timer goes that is put back: no earlier than some timer of the set exactly when it
is `Within`, given that it goes no earlier than some timer if the sum does not overflow. -/
theorem within_iff (m : TimeManager F) (t : TimerPtr) {now interval : Int}
    (low : -2 ^ 63 ≤ now) (high : now < 2 ^ 63)
    (is : (m.heap t).interval = interval) (nonneg : 0 ≤ interval) (small : interval < 2 ^ 63)
    (was : now + interval < 2 ^ 63 → ∃ u ∈ m.timers, (m.heap u).expire ≤ now + interval) :
    m.Within now t ↔ ∃ u ∈ m.timers, (m.heap u).expire ≤ toInt64 (now + interval) := by
  rw [Within, is, toInt64_sum low high nonneg small]
  by_cases fits : now + interval < 2 ^ 63
  · rw [if_pos fits]
    exact iff_of_true (Or.inl fits) (was fits)
  · rw [if_neg fits]
    exact or_iff_right fits

theorem expireOne_notified (now : Int) (t : TimerPtr) (m : TimeManager F) :
    (expireOne now t m).2.notified = m.notified := by
  rw [TimeManager.expireOne]
  split <;> rfl

/-- The loop over the expired timers tells nobody. -/
theorem expireAll_notified (now : Int) (ts : List TimerPtr) (m : TimeManager F) :
    (expireAll now ts m).2.notified = m.notified := by
  induction ts generalizing m with
  | nil => rfl
  | cons t ts ih => exact (ih _).trans (expireOne_notified now t m)

theorem expiredFunctions_notified (now : Int) (probe : Nat) (m : TimeManager F) :
    (expiredFunctions now probe m).2.notified = m.notified := by
  rw [TimeManager.expiredFunctions]
  split
  · rfl
  · exact expireAll_notified _ _ _

end TimeManager

namespace TimedSet

variable {s s' : TimedSet F} {call : TimerCall F}

/-- Every timer of the set was armed no later than now, and expires an interval later that is
not negative. -/
structure Punctual (s : TimedSet F) : Prop where
  lower : -2 ^ 63 ≤ s.clock
  ordered : s.manager.Ordered []
  timers : ∀ t ∈ s.manager.timers, (0 ≤ (s.manager.heap t).interval ∧
    (s.manager.heap t).interval < 2 ^ 63) ∧ ∃ start, -2 ^ 63 ≤ start ∧ start ≤ s.clock ∧
      (s.manager.heap t).expire = toInt64 (start + (s.manager.heap t).interval)

theorem punctual_start : ({} : TimedSet F).Punctual :=
  ⟨le_refl _, TimeManager.held_init.ordered, fun _ member => absurd member List.not_mem_nil⟩

theorem Punctual.step (punctual : s.Punctual) (step : TimedStep s call s') : s'.Punctual := by
  have lower : -2 ^ 63 ≤ s'.clock := le_trans punctual.lower step.forward
  -- any choice of the times that the timers were armed will do
  choose! started low high expires using fun t member => (punctual.timers t member).2
  obtain ⟨ordered, stands⟩ := punctual.ordered.stands (e := ⟨call, call.result s.manager⟩)
    ⟨step.called, rfl⟩ started
  refine ⟨lower, ordered, fun u member => ?_⟩
  cases stands u member with
  | kept old expire interval start =>
      rw [expire, interval]
      exact ⟨(punctual.timers u old).1, started u, low u old,
        le_trans (high u old) step.forward, expires u old⟩
  | rearmed reads expire interval =>
      refine ⟨?_, _, ?_, ?_, expire⟩
      · rcases interval with given | ⟨old, same⟩
        · exact step.interval _ given
        · rw [same]
          exact (punctual.timers u old).1
      · rw [step.reads _ reads]
        exact lower
      · exact le_of_eq (step.reads _ reads)
  | restarted old start expire given =>
      refine ⟨step.interval _ given, started u, low u old, le_trans (high u old) step.forward, ?_⟩
      rw [expire, expires u old, TimeManager.toInt64_restart]

/-- The sum of now and the interval of a timer is no earlier than the timer, if it fits. -/
theorem Punctual.expire_le (punctual : s.Punctual) {t : TimerPtr} (member : t ∈ s.manager.timers)
    {now : Int} (later : s.clock ≤ now)
    (fits : now + (s.manager.heap t).interval < 2 ^ 63) :
    (s.manager.heap t).expire ≤ now + (s.manager.heap t).interval := by
  obtain ⟨⟨nonneg, small⟩, start, low, high, expire⟩ := punctual.timers t member
  rw [expire, TimeManager.toInt64_sum low (by omega) nonneg small, if_pos (by omega)]
  omega

/-- Where a timer goes that is put back at the reading of a step. -/
theorem Punctual.within_iff (punctual : s.Punctual) (step : TimedStep s call s') {now : Int}
    (reads : now = s'.clock) {t : TimerPtr} (member : t ∈ s.manager.timers) :
    s.manager.Within now t ↔ ∃ u ∈ s.manager.timers,
      (s.manager.heap u).expire ≤ toInt64 (now + (s.manager.heap t).interval) := by
  obtain ⟨⟨nonneg, small⟩, -⟩ := punctual.timers t member
  have forward : s.clock ≤ now := by rw [reads]; exact step.forward
  exact TimeManager.within_iff _ _ (le_trans punctual.lower forward)
    (by rw [reads]; exact step.fits) rfl nonneg small
    fun fits => ⟨t, member, punctual.expire_le member forward fits⟩

theorem Punctual.refresh_iff (punctual : s.Punctual) {t : TimerPtr} {now : Int}
    (step : TimedStep s (.other (.refresh t now)) s') :
    (s.manager.Forward s'.manager → s.manager.notified < s'.manager.notified) ↔
      (t ∈ s.manager.timers → s.manager.Live t → s.manager.Within now t) := by
  have reads : now = s'.clock := step.reads now rfl
  have ordered' := (punctual.step step).ordered
  have ran : (s.manager.refresh t now).2 = s'.manager := step.called.2
  rcases punctual.ordered.refresh_cases t now with
    ⟨dead, refused⟩ | ⟨live, member, m', done, -, members, quiet, heap⟩
  · rw [refused] at ran
    rw [← ran]
    refine iff_of_true (fun forward => ?_) (fun _ live => absurd live dead)
    obtain ⟨u, there, before⟩ := (TimeManager.forward_iff punctual.ordered punctual.ordered).mp forward
    exact absurd (before u there) (lt_irrefl _)
  · rw [done] at ran
    dsimp only at ran
    subst ran
    have within := punctual.within_iff step reads member
    have expire : (s'.manager.heap t).expire =
        toInt64 (now + (s.manager.heap t).interval) := by rw [heap, Function.update_self]
    rw [TimeManager.quiet_iff punctual.ordered ordered' quiet]
    constructor
    · intro behind _ _
      have here := behind t ((members t).mpr member)
      rw [expire] at here
      exact within.mpr here
    · intro fits u there
      by_cases same : u = t
      · rw [same, expire]
        exact within.mp (fits member live)
      · refine ⟨u, (members u).mp there, ?_⟩
        rw [heap, Function.update_of_ne same]

theorem Punctual.expired_iff (punctual : s.Punctual) {now : Int} {probe : Nat}
    (step : TimedStep s (.other (.expiredFunctions now probe)) s') :
    (s.manager.Forward s'.manager → s.manager.notified < s'.manager.notified) ↔
      ∀ t ∈ s.manager.timers, (s.manager.heap t).expire ≤ now →
        (s.manager.heap t).recursive = true → s.manager.Within now t := by
  have reads : now = s'.clock := step.reads now rfl
  have ordered' := (punctual.step step).ordered
  have ran : (s.manager.expiredFunctions now probe).2 = s'.manager := step.called.2
  have quiet := TimeManager.expiredFunctions_notified now probe s.manager
  obtain ⟨expired, m', done, expires, -⟩ := punctual.ordered.expires now probe
  rw [ran] at quiet
  rw [done] at ran
  dsimp only at ran
  subst ran
  rw [TimeManager.quiet_iff punctual.ordered ordered' quiet]
  constructor
  · intro behind t member due again
    have handed := (expires.exact t).mpr ⟨member, due⟩
    have here := behind t ((expires.members t).mpr (Or.inr ⟨handed, again⟩))
    rw [expires.rearmed t handed again] at here
    exact (punctual.within_iff step reads member).mpr here
  · intro fits u there
    rcases (expires.members u).mp there with ⟨old, later⟩ | ⟨handed, again⟩
    · have left : u ∉ expired := fun due =>
        absurd ((expires.exact u).mp due).2 (Int.not_le.mpr later)
      exact ⟨u, old, by rw [expires.unchanged u left]⟩
    · obtain ⟨member, due⟩ := (expires.exact u).mp handed
      rw [expires.rearmed u handed again]
      exact (punctual.within_iff step reads member).mp (fits u member due again)

/-- A call tells of what it has brought forward exactly when it fits. -/
theorem Punctual.notifies_iff (punctual : s.Punctual) (step : TimedStep s call s') :
    (s.manager.Forward s'.manager → s.manager.notified < s'.manager.notified) ↔
      call.Fits s.manager := by
  have ordered' := (punctual.step step).ordered
  have tells : ∀ {e : Option Int}, s.manager.Leaves s'.manager e →
      (∀ x ∈ e, s.manager.Told s'.manager x) →
      s.manager.Forward s'.manager → s.manager.notified < s'.manager.notified :=
    fun leaves told => TimeManager.told_of_leaves punctual.ordered ordered' leaves told
  have ran := step.called.2
  cases call with
  | addTimer addr now interval func recursive =>
      obtain ⟨leaves, told⟩ :=
        TimeManager.leaves_addTimerOf (m := s.manager) addr now interval func recursive
      rw [← ran]
      rw [← ran] at tells
      exact iff_of_true (tells leaves fun x put => Option.some.inj put ▸ told) trivial
  | other op =>
      cases op with
      | addTimer addr now interval func recursive =>
          obtain ⟨leaves, told⟩ :=
            TimeManager.leaves_addTimerOf (m := s.manager) addr now interval (some func) recursive
          rw [← ran]
          rw [← ran] at tells
          exact iff_of_true (tells leaves fun x put => Option.some.inj put ▸ told) trivial
      | cancel t =>
          rw [← ran]
          rw [← ran] at tells
          exact iff_of_true (tells TimeManager.leaves_cancel
            fun x put => absurd put (Option.not_mem_none x)) trivial
      | refresh t now => exact punctual.refresh_iff step
      | reset t interval fromNow now =>
          obtain ⟨leaves, told⟩ :=
            TimeManager.leaves_reset (m := s.manager) (t := t) interval fromNow now
          rw [← ran]
          rw [← ran] at tells
          exact iff_of_true (tells leaves told) trivial
      | expiredFunctions now probe => exact punctual.expired_iff step

/-- **Who brings the earliest timer forward says so.** With a clock that does not go back and
intervals that are not negative, in every sequence of calls on the timers: each call that
makes the earliest `expire_` smaller, or puts a timer into an empty set, has called
`timerInsertAtFront`, if and only if no `refresh` and no `expiredFunctions` of the sequence
puts a timer back whose sum overflows to the front of the set. -/
theorem forward_notifies_iff (calls : List (TimerCall F)) :
    (∀ before call s s', before ++ [call] <+: calls → Run TimedStep {} before s →
        TimedStep s call s' →
        s.manager.Forward s'.manager → s.manager.notified < s'.manager.notified) ↔
      ∀ before call s s', before ++ [call] <+: calls → Run TimedStep {} before s →
        TimedStep s call s' → call.Fits s.manager := by
  have punctual : ∀ {before} {s : TimedSet F}, Run TimedStep {} before s → s.Punctual :=
    fun run => run.invariant punctual_start fun punctual step => punctual.step step
  constructor
  · intro notifies before call s s' within run step
    exact ((punctual run).notifies_iff step).mp (notifies before call s s' within run step)
  · intro fits before call s s' within run step
    exact ((punctual run).notifies_iff step).mpr (fits before call s s' within run step)

/-- The longest timer that can be armed at the reading 1600000000000. -/
def longest : TimerCall Nat :=
  .addTimer 64 1600000000000 (2 ^ 63 - 1 - 1600000000000) (some 7) false

/-- Its `refresh` a millisecond later makes it expire before everything, and tells nobody. -/
theorem not_forward_notifies : ∃ s s' : TimedSet Nat, Run TimedStep {} [longest] s ∧
    TimedStep s (.other (.refresh 0 1600000000001)) s' ∧ s.manager.Forward s'.manager ∧
    ¬s.manager.notified < s'.manager.notified := by
  let m : TimeManager Nat := longest.exec .init
  let m' : TimeManager Nat := (TimerCall.other (.refresh 0 1600000000001)).exec m
  refine ⟨⟨m, 1600000000000⟩, ⟨m', 1600000000001⟩, Run.single ⟨⟨by decide, rfl⟩, by decide,
    by decide, fun now read => ?_, fun i given => ?_⟩, ⟨⟨by decide, rfl⟩, by decide, by decide,
    fun now read => ?_, fun i given => ?_⟩, Or.inl ⟨2 ^ 63 - 1, -2 ^ 63, ?_, ?_, by decide⟩,
    by decide⟩
  · exact (Option.some.inj read).symm
  · rw [← Option.some.inj given]
    decide
  · exact (Option.some.inj read).symm
  · exact absurd given (Option.not_mem_none i)
  · exact ⟨⟨0, by decide, by decide⟩, by decide⟩
  · exact ⟨⟨0, by decide, by decide⟩, by decide⟩

end TimedSet

end Reyao
