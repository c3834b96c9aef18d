import Reyao.TimerOrder

/-!
# Runs of timer operations

A run is any sequence of calls, with any intervals and any clock readings; each
event records the call and what it returned. Every run keeps `timers_` in order
(`timers_stay_ordered`) and is a run of the alarms, from which the history of
each timer follows (`timer_history`).
-/

namespace Reyao

open Lib

variable {F : Type}

inductive TimerOp (F : Type) : Type
  | addTimer (addr : Nat) (now interval : Int) (func : F) (recursive : Bool)
  | cancel (t : TimerPtr)
  | refresh (t : TimerPtr) (now : Int)
  | reset (t : TimerPtr) (interval : Int) (fromNow : Bool) (now : Int)
  | expiredFunctions (now : Int) (probe : Nat)

inductive TimerResult (F : Type) : Type
  | timer (t : TimerPtr)
  | flag (ret : Bool)
  | functions (out : List (TimerPtr × Option F))

structure TimerEvent (F : Type) : Type where
  op : TimerOp F
  result : TimerResult F

namespace TimerOp

def exec (m : TimeManager F) : TimerOp F → TimerResult F × TimeManager F
  | addTimer addr now interval func recursive =>
      let (t, m) := m.addTimer addr now interval func recursive
      (.timer t, m)
  | cancel t =>
      let (ret, m) := m.cancel t
      (.flag ret, m)
  | refresh t now =>
      let (ret, m) := m.refresh t now
      (.flag ret, m)
  | reset t interval fromNow now =>
      let (ret, m) := m.reset t interval fromNow now
      (.flag ret, m)
  | expiredFunctions now probe =>
      let (out, m) := m.expiredFunctions now probe
      (.functions out, m)

/-- Calls are made on timers that exist, and the allocator places a new timer
away from those the set keeps alive. -/
def Enabled (m : TimeManager F) : TimerOp F → Prop
  | addTimer addr _ _ _ _ => ∀ u ∈ m.timers, (m.heap u).addr ≠ addr
  | cancel t => t < m.allocated
  | refresh t _ => t < m.allocated
  | reset t _ _ _ => t < m.allocated
  | expiredFunctions _ _ => True

instance (m : TimeManager F) (op : TimerOp F) : Decidable (op.Enabled m) :=
  match op with
  | addTimer addr _ _ _ _ => inferInstanceAs (Decidable (∀ u ∈ m.timers, (m.heap u).addr ≠ addr))
  | cancel t => inferInstanceAs (Decidable (t < m.allocated))
  | refresh t _ => inferInstanceAs (Decidable (t < m.allocated))
  | reset t _ _ _ => inferInstanceAs (Decidable (t < m.allocated))
  | expiredFunctions _ _ => inferInstanceAs (Decidable True)

end TimerOp

def TimerStep (m : TimeManager F) (e : TimerEvent F) (m' : TimeManager F) : Prop :=
  e.op.Enabled m ∧ e.op.exec m = (e.result, m')

/-- A single and a recursive timer: the recursive one fires, the single one is
put off, cancelled in time, and the clock goes back. -/
def twoTimers : List (TimerEvent Nat) :=
  [⟨.addTimer 64 5 10 7 false, .timer 0⟩, ⟨.addTimer 128 5 10 8 true, .timer 1⟩,
    ⟨.refresh 0 20, .flag true⟩, ⟨.expiredFunctions 15 96, .functions [(1, some 8)]⟩,
    ⟨.cancel 0, .flag true⟩, ⟨.expiredFunctions 2 96, .functions []⟩]

theorem twoTimers_run : ∃ m : TimeManager Nat, Run TimerStep .init twoTimers m :=
  ⟨_, Run.cons ⟨by decide, rfl⟩ (Run.cons ⟨by decide, rfl⟩ (Run.cons ⟨by decide, rfl⟩
    (Run.cons ⟨by decide, rfl⟩ (Run.cons ⟨by decide, rfl⟩ (Run.single ⟨by decide, rfl⟩)))))⟩

namespace TimerEvent

/-- The functions an event hands out, each with its timer. -/
def fired (e : TimerEvent F) : List (TimerPtr × Option F) :=
  match e.result with
  | .functions out => out
  | _ => []

/-- A `cancel()` on `t` that returned `ret`. -/
def cancelled (t : TimerPtr) (ret : Bool) : TimerEvent F := ⟨.cancel t, .flag ret⟩

end TimerEvent

/-- The timers whose functions a sequence of events hands out, in order. -/
def handedOut (es : List (TimerEvent F)) : List TimerPtr :=
  (es.flatMap TimerEvent.fired).map Prod.fst

/-! ## The alarms behind a run -/

/-- What an event does to the alarms. -/
inductive AlarmStep : Alarms F → TimerEvent F → Alarms F → Prop
  | add {a : Alarms F} {addr : Nat} {now interval : Int} {func : F} {recursive : Bool} :
    AlarmStep a ⟨.addTimer addr now interval func recursive, .timer a.issued⟩
      (a.add func recursive)
  | cancel {a : Alarms F} {t : TimerPtr} (issued : t < a.issued) :
    AlarmStep a (.cancelled t (a.armed t).isSome) (a.disarm t)
  | refresh {a : Alarms F} {t : TimerPtr} {now : Int} {ret : Bool} :
    AlarmStep a ⟨.refresh t now, .flag ret⟩ a
  | reset {a : Alarms F} {t : TimerPtr} {interval now : Int} {fromNow ret : Bool} :
    AlarmStep a ⟨.reset t interval fromNow now, .flag ret⟩ a
  | expired {a : Alarms F} {now : Int} {probe : Nat} {ts : List TimerPtr} (nodup : ts.Nodup)
    (armed : ∀ t ∈ ts, a.armed t ≠ none) :
    AlarmStep a ⟨.expiredFunctions now probe, .functions (ts.map fun t => (t, a.armed t))⟩
      (a.fire ts)

namespace TimeManager

variable {m m' : TimeManager F}

/-- A call keeps the set in order, reports no error and does to the alarms what
its event says. -/
theorem Held.step (held : m.Held []) {e : TimerEvent F} (step : TimerStep m e m') :
    m'.Held [] ∧ AlarmStep m.alarms e m'.alarms ∧ m'.errors = m.errors := by
  obtain ⟨op, result⟩ := e
  obtain ⟨enabled, done⟩ := step
  cases op with
  | addTimer addr now interval func recursive =>
      obtain ⟨m₁, ran, held₁, alarms, errors⟩ :=
        held.addTimer enabled now interval func recursive
      simp only [TimerOp.exec, ran] at done
      cases done
      exact ⟨held₁, alarms ▸ .add, errors⟩
  | cancel t =>
      by_cases live : m.Live t
      · obtain ⟨m₁, ran, held₁, alarms, errors⟩ := held.cancel live
        simp only [TimerOp.exec, ran] at done
        cases done
        have ret : (m.alarms.armed t).isSome = true := Option.isSome_iff_ne_none.mpr live
        exact ⟨held₁, alarms ▸ ret ▸ .cancel enabled, errors⟩
      · simp only [TimerOp.exec, cancel_dead live] at done
        cases done
        have dead : m.alarms.armed t = none := not_not.mp live
        have ret : (m.alarms.armed t).isSome = false := by rw [dead]; rfl
        have same : m.alarms.disarm t = m.alarms := by
          rw [Alarms.disarm, ← dead, Function.update_eq_self]
        have step := AlarmStep.cancel (a := m.alarms) enabled
        rw [ret, same] at step
        exact ⟨held, step, rfl⟩
  | refresh t now =>
      by_cases live : m.Live t
      · obtain ⟨m₁, ran, held₁, alarms, errors⟩ := held.refresh live now
        simp only [TimerOp.exec, ran] at done
        cases done
        exact ⟨held₁, alarms ▸ .refresh, errors⟩
      · simp only [TimerOp.exec, refresh_dead live] at done
        cases done
        exact ⟨held, .refresh, rfl⟩
  | reset t interval fromNow now =>
      by_cases live : m.Live t
      · obtain ⟨m₁, ran, held₁, alarms, errors⟩ := held.reset live interval fromNow now
        simp only [TimerOp.exec, ran] at done
        cases done
        exact ⟨held₁, alarms ▸ .reset, errors⟩
      · obtain ⟨ret, ran⟩ := reset_dead live interval fromNow now
        simp only [TimerOp.exec, ran] at done
        cases done
        exact ⟨held, .reset, rfl⟩
  | expiredFunctions now probe =>
      obtain ⟨ts, m₁, ran, held₁, alarms, errors, nodup, live⟩ := held.expiredFunctions now probe
      simp only [TimerOp.exec, ran] at done
      cases done
      exact ⟨held₁, alarms ▸ .expired nodup live, errors⟩

/-- **The set stays ordered by what its members are now.** After any calls with
any clock readings, `timers_` is strictly ordered by its comparator and without
duplicates, a timer is in it exactly when it has a function, every lookup of such
a timer succeeds, and no lookup has ever failed. -/
theorem timers_stay_ordered {es : List (TimerEvent F)} (run : Run TimerStep init es m) :
    m.timers.Pairwise (fun a b => m.before a b = true) ∧ m.timers.Nodup ∧
      (∀ t < m.allocated, t ∈ m.timers ↔ (m.heap t).func ≠ none) ∧
      (∀ t < m.allocated, (m.heap t).func ≠ none →
        (∃ it, m.find t = some it ∧ m.timers[it]? = some t) ∧ (m.cancel t).1 = true ∧
        (∀ now, (m.refresh t now).1 = true) ∧
        (∀ interval fromNow now, (m.reset t interval fromNow now).1 = true)) ∧
      m.errors = [] := by
  obtain ⟨held, errors⟩ := run.invariant (I := fun m => m.Held [] ∧ m.errors = [])
    ⟨held_init, rfl⟩ (fun inv step => by
      obtain ⟨held, -, errors⟩ := inv.1.step step
      exact ⟨held, errors.trans inv.2⟩)
  refine ⟨held.sorted.imp fun {a b} less => (m.before_iff a b).mpr less, held.sorted.nodup,
    fun t _ => held.mem_iff, ?_, errors⟩
  intro t _ live
  refine ⟨held.sorted.find_mem m.before_iff (held.mem_iff.mpr live), ?_, ?_, ?_⟩
  · obtain ⟨_, ran, -⟩ := held.cancel live
    rw [ran]
  · intro now
    obtain ⟨_, ran, -⟩ := held.refresh live now
    rw [ran]
  · intro interval fromNow now
    obtain ⟨_, ran, -⟩ := held.reset live interval fromNow now
    rw [ran]

theorem twoTimers_ordered : ∃ m : TimeManager Nat, Run TimerStep .init twoTimers m ∧
    m.timers.Pairwise (fun a b => m.before a b = true) ∧ m.errors = [] := by
  obtain ⟨m, run⟩ := twoTimers_run
  have ordered := timers_stay_ordered run
  exact ⟨m, run, ordered.1, ordered.2.2.2.2⟩

end TimeManager

/-! ## The history of a timer -/

theorem handedOut_append (es fs : List (TimerEvent F)) :
    handedOut (es ++ fs) = handedOut es ++ handedOut fs := by
  rw [handedOut, List.flatMap_append, List.map_append, handedOut, handedOut]

/-- What the events so far say about the alarms. -/
structure Told (es : List (TimerEvent F)) (a : Alarms F) : Prop where
  unborn : ∀ t, a.issued ≤ t →
    a.armed t = none ∧ t ∉ handedOut es ∧ TimerEvent.cancelled t true ∉ es
  armed : ∀ t f, a.armed t = some f → TimerEvent.cancelled t true ∉ es ∧
    (a.recursive t = false → t ∉ handedOut es) ∧
    ∃ addr now interval, ⟨.addTimer addr now interval f (a.recursive t), .timer t⟩ ∈ es
  spent : ∀ t < a.issued, a.armed t = none → a.recursive t = false →
    (t ∈ handedOut es ↔ TimerEvent.cancelled t true ∉ es)
  once : ∀ t, a.recursive t = false → (handedOut es).count t ≤ 1

theorem told_init : Told [] (Alarms.init : Alarms F) where
  unborn _ _ := ⟨rfl, List.not_mem_nil, List.not_mem_nil⟩
  armed _ _ isArmed := by cases isArmed
  spent _ issued := absurd issued (Nat.not_lt_zero _)
  once _ _ := Nat.zero_le _

variable {es : List (TimerEvent F)} {a b : Alarms F} {e : TimerEvent F} {t : TimerPtr}

/-- An event that neither hands anything out nor cancels leaves the record as it
is. -/
theorem Told.quiet (told : Told es a) (silent : e.fired = [])
    (other : ∀ t, e ≠ .cancelled t true) : Told (es ++ [e]) a := by
  have out : handedOut (es ++ [e]) = handedOut es := by
    rw [handedOut_append, handedOut, handedOut, List.flatMap_singleton, silent, List.map_nil,
      List.append_nil]
  have cancels : ∀ t, TimerEvent.cancelled t true ∈ es ++ [e] ↔
      TimerEvent.cancelled t true ∈ es := by
    intro t
    rw [List.mem_append, List.mem_singleton, or_iff_left (other t).symm]
  refine ⟨?_, ?_, ?_, ?_⟩
  · intro t late
    rw [out, cancels]
    exact told.unborn t late
  · intro t f isArmed
    obtain ⟨kept, fresh, addr, now, interval, added⟩ := told.armed t f isArmed
    rw [out, cancels]
    exact ⟨kept, fresh, addr, now, interval, List.mem_append_left _ added⟩
  · intro t issued off single
    rw [out, cancels]
    exact told.spent t issued off single
  · intro t single
    rw [out]
    exact told.once t single

theorem Told.add (told : Told es a) {addr : Nat} {now interval : Int} {func : F}
    {recursive : Bool} :
    Told (es ++ [⟨.addTimer addr now interval func recursive, .timer a.issued⟩])
      (a.add func recursive) := by
  obtain ⟨unborn, armed, spent, once⟩ :=
    told.quiet (e := ⟨.addTimer addr now interval func recursive, .timer a.issued⟩) rfl
      (fun t same => by cases same)
  obtain ⟨-, notOut, notCancelled⟩ := unborn a.issued (le_refl _)
  refine ⟨?_, ?_, ?_, ?_⟩
  · intro t late
    obtain ⟨off, rest⟩ := unborn t (Nat.le_of_succ_le late)
    exact ⟨(Alarms.armed_add_of_ne (Nat.ne_of_gt late) func recursive).trans off, rest⟩
  · intro t f isArmed
    by_cases new : t = a.issued
    · subst new
      rw [Alarms.armed_add_self] at isArmed
      cases isArmed
      refine ⟨notCancelled, fun _ => notOut, addr, now, interval, ?_⟩
      rw [Alarms.recursive_add_self]
      exact List.mem_append_right _ List.mem_cons_self
    · rw [Alarms.armed_add_of_ne new] at isArmed
      rw [Alarms.recursive_add_of_ne new]
      exact armed t f isArmed
  · intro t issued off single
    by_cases new : t = a.issued
    · subst new
      rw [Alarms.armed_add_self] at off
      cases off
    · rw [Alarms.armed_add_of_ne new] at off
      rw [Alarms.recursive_add_of_ne new] at single
      exact spent t (Nat.lt_of_le_of_ne (Nat.le_of_lt_succ issued) new) off single
  · intro t single
    by_cases new : t = a.issued
    · subst new
      rw [List.count_eq_zero_of_not_mem notOut]
      exact Nat.zero_le 1
    · rw [Alarms.recursive_add_of_ne new] at single
      exact once t single

/-- A `cancel()` that finds a function. -/
theorem Told.cancel (told : Told es a) (isArmed : a.armed t ≠ none) :
    Told (es ++ [.cancelled t true]) (a.disarm t) := by
  have out : handedOut (es ++ [.cancelled t true]) = handedOut es := by
    rw [handedOut_append]
    exact List.append_nil _
  have cancels : ∀ u, u ≠ t → (TimerEvent.cancelled u true ∈ es ++ [.cancelled t true] ↔
      TimerEvent.cancelled u true ∈ es) := by
    intro u other
    rw [List.mem_append, List.mem_singleton, or_iff_left]
    intro same
    cases same
    exact other rfl
  obtain ⟨f, some_f⟩ := Option.ne_none_iff_exists'.mp isArmed
  obtain ⟨-, fresh, -⟩ := told.armed t f some_f
  refine ⟨?_, ?_, ?_, ?_⟩
  · intro u late
    obtain ⟨off, rest⟩ := told.unborn u late
    have other : u ≠ t := by
      rintro rfl
      exact isArmed off
    rw [Alarms.armed_disarm_of_ne other, out, cancels u other]
    exact ⟨off, rest⟩
  · intro u f isArmed
    by_cases other : u = t
    · subst other
      rw [Alarms.armed_disarm_self] at isArmed
      cases isArmed
    · rw [Alarms.armed_disarm_of_ne other] at isArmed
      obtain ⟨kept, unused, addr, now, interval, added⟩ := told.armed u f isArmed
      rw [out, cancels u other]
      exact ⟨kept, unused, addr, now, interval, List.mem_append_left _ added⟩
  · intro u issued off single
    rw [out]
    by_cases other : u = t
    · subst other
      exact iff_of_false (fresh single)
        (not_not_intro (List.mem_append_right _ List.mem_cons_self))
    · rw [Alarms.armed_disarm_of_ne other] at off
      rw [cancels u other]
      exact told.spent u issued off single
  · intro u single
    rw [out]
    exact told.once u single

/-- Functions are handed out. -/
theorem Told.expired (told : Told es a) {now : Int} {probe : Nat} {ts : List TimerPtr}
    (nodup : ts.Nodup) (armed : ∀ t ∈ ts, a.armed t ≠ none) :
    Told (es ++ [⟨.expiredFunctions now probe, .functions (ts.map fun t => (t, a.armed t))⟩])
      (a.fire ts) := by
  have out : handedOut (es ++ [⟨.expiredFunctions now probe,
      .functions (ts.map fun t => (t, a.armed t))⟩]) = handedOut es ++ ts := by
    rw [handedOut_append]
    congr 1
    simp [handedOut, TimerEvent.fired, Function.comp_def]
  have cancels : ∀ u, TimerEvent.cancelled u true ∈ es ++ [⟨.expiredFunctions now probe,
      .functions (ts.map fun t => (t, a.armed t))⟩] ↔ TimerEvent.cancelled u true ∈ es := by
    intro u
    rw [List.mem_append, List.mem_singleton, or_iff_left]
    intro same
    cases same
  -- a timer that is handed out was armed, so it was neither handed out nor cancelled before
  have fresh : ∀ u ∈ ts, TimerEvent.cancelled u true ∉ es ∧
      (a.recursive u = false → u ∉ handedOut es) := by
    intro u member
    obtain ⟨f, some_f⟩ := Option.ne_none_iff_exists'.mp (armed u member)
    obtain ⟨kept, unused, -⟩ := told.armed u f some_f
    exact ⟨kept, unused⟩
  refine ⟨?_, ?_, ?_, ?_⟩
  · intro u late
    obtain ⟨off, notOut, kept⟩ := told.unborn u late
    have other : u ∉ ts := fun member => armed u member off
    rw [Alarms.armed_fire_of_not_mem other, out, cancels, List.mem_append, not_or]
    exact ⟨off, ⟨notOut, other⟩, kept⟩
  · intro u f isArmed
    have still : ¬(u ∈ ts ∧ a.recursive u = false) := by
      intro gone
      rw [Alarms.armed_fire, if_pos gone] at isArmed
      cases isArmed
    rw [Alarms.armed_fire, if_neg still] at isArmed
    obtain ⟨kept, unused, addr, at_, interval, added⟩ := told.armed u f isArmed
    rw [out, cancels]
    refine ⟨kept, fun single => ?_, addr, at_, interval, List.mem_append_left _ added⟩
    rw [List.mem_append, not_or]
    exact ⟨unused single, fun member => still ⟨member, single⟩⟩
  · intro u issued off single
    rw [out, cancels, List.mem_append]
    by_cases member : u ∈ ts
    · exact iff_of_true (Or.inr member) (fresh u member).1
    · rw [Alarms.armed_fire_of_not_mem member] at off
      rw [or_iff_left member]
      exact told.spent u issued off single
  · intro u single
    rw [out, List.count_append]
    by_cases member : u ∈ ts
    · rw [List.count_eq_zero_of_not_mem ((fresh u member).2 single), Nat.zero_add]
      exact List.nodup_iff_count.mp nodup u
    · rw [List.count_eq_zero_of_not_mem member]
      exact told.once u single

theorem Told.step (told : Told es a) (step : AlarmStep a e b) : Told (es ++ [e]) b := by
  cases step with
  | add => exact told.add
  | cancel issued =>
      rename_i t
      cases off : a.armed t with
      | none =>
          have same : a.disarm t = a := by
            rw [Alarms.disarm, ← off, Function.update_eq_self]
          rw [same]
          exact told.quiet rfl fun u same => by cases same
      | some f =>
          exact told.cancel (by rw [off]; exact Option.some_ne_none f)
  | refresh => exact told.quiet rfl fun u same => by cases same
  | reset => exact told.quiet rfl fun u same => by cases same
  | expired nodup armed => exact told.expired nodup armed

/-- Whether a timer is recursive never changes. -/
theorem AlarmStep.recursive_eq (step : AlarmStep a e b) (issued : t < a.issued) :
    t < b.issued ∧ b.recursive t = a.recursive t := by
  cases step with
  | add => exact ⟨Nat.lt_succ_of_lt issued, Alarms.recursive_add_of_ne (Nat.ne_of_lt issued) _ _⟩
  | cancel => exact ⟨issued, rfl⟩
  | refresh => exact ⟨issued, rfl⟩
  | reset => exact ⟨issued, rfl⟩
  | expired => exact ⟨issued, rfl⟩

/-- A timer without a function gets none and is not handed out. -/
theorem AlarmStep.stays_off (step : AlarmStep a e b) (issued : t < a.issued)
    (off : a.armed t = none) : b.armed t = none ∧ t ∉ handedOut [e] := by
  cases step with
  | add =>
      exact ⟨(Alarms.armed_add_of_ne (Nat.ne_of_lt issued) _ _).trans off, List.not_mem_nil⟩
  | @cancel u =>
      refine ⟨?_, List.not_mem_nil⟩
      by_cases same : t = u
      · rw [same, Alarms.armed_disarm_self]
      · rw [Alarms.armed_disarm_of_ne same, off]
  | refresh => exact ⟨off, List.not_mem_nil⟩
  | reset => exact ⟨off, List.not_mem_nil⟩
  | @expired now probe ts nodup armed =>
      have other : t ∉ ts := fun member => armed t member off
      refine ⟨(Alarms.armed_fire_of_not_mem other).trans off, ?_⟩
      simpa [handedOut, TimerEvent.fired, Function.comp_def] using other

theorem recursive_of_run (run : Run AlarmStep a es b) (issued : t < a.issued) :
    t < b.issued ∧ b.recursive t = a.recursive t :=
  run.invariant (I := fun b => t < b.issued ∧ b.recursive t = a.recursive t) ⟨issued, rfl⟩
    (fun kept step => by
      obtain ⟨issued, same⟩ := step.recursive_eq kept.1
      exact ⟨issued, same.trans kept.2⟩)

theorem off_of_run (run : Run AlarmStep a es b) (issued : t < a.issued)
    (off : a.armed t = none) : b.armed t = none ∧ t ∉ handedOut es := by
  have kept := run.historyInvariant
    (I := fun es b => t < b.issued ∧ b.armed t = none ∧ t ∉ handedOut es)
    ⟨issued, off, List.not_mem_nil⟩ (fun kept step => by
      obtain ⟨issued, off, notOut⟩ := kept
      obtain ⟨off', notNow⟩ := step.stays_off issued off
      refine ⟨(step.recursive_eq issued).1, off', ?_⟩
      rw [handedOut_append, List.mem_append, not_or]
      exact ⟨notOut, notNow⟩)
  exact kept.2

theorem told_of_run (run : Run AlarmStep .init es a) : Told es a :=
  run.historyInvariant told_init Told.step

/-- A `cancel()` on `t` found `t` armed exactly when it returned true, and left it
disarmed. -/
theorem AlarmStep.of_cancelled {ret : Bool} (step : AlarmStep a (.cancelled t ret) b) :
    t < a.issued ∧ ret = (a.armed t).isSome ∧ b = a.disarm t := by
  generalize event : TimerEvent.cancelled t ret = e at step
  cases step with
  | cancel issued =>
      cases event
      exact ⟨issued, rfl, rfl⟩
  | add => cases event
  | refresh => cases event
  | reset => cases event
  | expired => cases event

/-- Once `cancel()` was called on a timer, it is off for good. -/
theorem off_after_cancel {pre post : List (TimerEvent F)} {ret : Bool}
    (run : Run AlarmStep .init (pre ++ .cancelled t ret :: post) b) :
    b.armed t = none ∧ t ∉ handedOut post := by
  obtain ⟨mid, after, -, step, rest⟩ := run.split
  obtain ⟨issued, -, rfl⟩ := step.of_cancelled
  exact off_of_run rest issued (Alarms.armed_disarm_self t mid)

/-- Functions come out of a call for different timers, each with the function it
is armed with. -/
theorem AlarmStep.of_fired (step : AlarmStep a e b) :
    (handedOut [e]).Nodup ∧ ∀ t f, (t, f) ∈ e.fired → f = a.armed t ∧ f ≠ none := by
  cases step with
  | add => exact ⟨List.nodup_nil, fun _ _ member => by cases member⟩
  | cancel => exact ⟨List.nodup_nil, fun _ _ member => by cases member⟩
  | refresh => exact ⟨List.nodup_nil, fun _ _ member => by cases member⟩
  | reset => exact ⟨List.nodup_nil, fun _ _ member => by cases member⟩
  | @expired now probe ts nodup armed =>
      constructor
      · simpa [handedOut, TimerEvent.fired, Function.comp_def] using nodup
      · intro t f member
        obtain ⟨u, expired, same⟩ := List.mem_map.mp member
        cases same
        exact ⟨rfl, armed t expired⟩

/-- The calls of a run are events of the alarms. -/
theorem alarms_of_run {m : TimeManager F} (run : Run TimerStep .init es m) :
    Run AlarmStep .init es m.alarms := by
  obtain ⟨a, replay, -, rfl⟩ := run.simulate (A := AlarmStep)
    (R := fun m a => m.Held [] ∧ a = m.alarms) ⟨TimeManager.held_init, rfl⟩
    (fun related step => by
      obtain ⟨held, rfl⟩ := related
      obtain ⟨held', astep, -⟩ := held.step step
      exact ⟨_, astep, held', rfl⟩)
  exact replay

/-- **What happens to a timer over a run.** A function that is handed out is the
one its timer was added with. A non-recursive timer is handed out at most once,
and never if a `cancel()` on it returned true, which it does exactly when the
timer has been neither handed out nor cancelled before. A recursive timer is not handed out
after a `cancel()` that returned true, and at most once by each call. -/
theorem timer_history {m : TimeManager F} (run : Run TimerStep .init es m) (t : TimerPtr) :
    (∀ f, (t, f) ∈ es.flatMap TimerEvent.fired → ∃ addr now interval func recursive,
      ⟨.addTimer addr now interval func recursive, .timer t⟩ ∈ es ∧ f = some func) ∧
    ((m.heap t).recursive = false →
      (handedOut es).count t ≤ 1 ∧
      (TimerEvent.cancelled t true ∈ es → t ∉ handedOut es) ∧
      (∀ pre post ret, es = pre ++ .cancelled t ret :: post →
        (ret = true ↔ t ∉ handedOut pre ∧ ∀ ret', TimerEvent.cancelled t ret' ∉ pre))) ∧
    ((m.heap t).recursive = true →
      (∀ pre post, es = pre ++ .cancelled t true :: post → t ∉ handedOut post) ∧
      (∀ e ∈ es, (handedOut [e]).count t ≤ 1)) := by
  have replay := alarms_of_run run
  have told := told_of_run replay
  refine ⟨?_, ?_, ?_⟩
  · intro f out
    obtain ⟨e, member, fired⟩ := List.mem_flatMap.mp out
    obtain ⟨pre, post, rfl⟩ := List.append_of_mem member
    obtain ⟨mid, after, before, step, -⟩ := replay.split
    obtain ⟨same, isSome⟩ := step.of_fired.2 t f fired
    obtain ⟨func, rfl⟩ := Option.ne_none_iff_exists'.mp isSome
    obtain ⟨-, -, addr, now, interval, added⟩ := (told_of_run before).armed t func same.symm
    exact ⟨addr, now, interval, func, _, List.mem_append_left _ added, rfl⟩
  · intro single
    refine ⟨told.once t single, ?_, ?_⟩
    · intro cancelled
      have issued : t < m.alarms.issued := by
        by_contra late
        exact (told.unborn t (Nat.le_of_not_lt late)).2.2 cancelled
      obtain ⟨pre, post, rfl⟩ := List.append_of_mem cancelled
      have spent := told.spent t issued (off_after_cancel replay).1 single
      exact fun out => spent.mp out cancelled
    · rintro pre post ret rfl
      obtain ⟨mid, after, before, step, rest⟩ := replay.split
      obtain ⟨issued, rfl, rfl⟩ := step.of_cancelled
      have toldMid := told_of_run before
      have singleMid : mid.recursive t = false :=
        (recursive_of_run rest issued).2.symm.trans single
      constructor
      · intro isArmed
        obtain ⟨f, some_f⟩ := Option.isSome_iff_exists.mp isArmed
        refine ⟨(toldMid.armed t f some_f).2.1 singleMid, fun ret' earlier => ?_⟩
        obtain ⟨pre', post', rfl⟩ := List.append_of_mem earlier
        rw [(off_after_cancel before).1] at some_f
        cases some_f
      · rintro ⟨notOut, notCancelled⟩
        by_contra off
        rw [Option.not_isSome_iff_eq_none] at off
        exact notOut ((toldMid.spent t issued off singleMid).mpr (notCancelled true))
  · intro again
    constructor
    · rintro pre post rfl
      exact (off_after_cancel replay).2
    · intro e member
      obtain ⟨pre, post, rfl⟩ := List.append_of_mem member
      obtain ⟨mid, after, -, step, -⟩ := replay.split
      exact List.nodup_iff_count.mp step.of_fired.1 t

theorem twoTimers_history : ∃ m : TimeManager Nat, Run TimerStep .init twoTimers m ∧
    ((m.heap 0).recursive = false → 0 ∉ handedOut twoTimers) := by
  obtain ⟨m, run⟩ := twoTimers_run
  exact ⟨m, run, fun single => ((timer_history run 0).2.1 single).2.1 (by simp [twoTimers,
    TimerEvent.cancelled])⟩

end Reyao
