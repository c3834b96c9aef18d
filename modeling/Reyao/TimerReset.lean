import Reyao.TimerExpiry

/-!
# What `reset` and `refresh` answer (`timer.cc`)

A timer does not keep when it was armed: `reset` without `fromNow` takes `expire_ - interval_`
for it. `lastArmed` has the time from the answers to the calls made so far, and in every
timer set the two agree (`Armed`), modulo the width of `int64_t`.

`reset` answers before it looks for the timer when the interval is not new, and both members
give up on a timer without a function before they look for it. A call tells the truth
exactly when neither matters (`Reports`).
-/

namespace Reyao

open Lib

variable {F : Type}

/-! ## When a timer was armed -/

/-- What a call returns. -/
def TimerCall.result (m : TimeManager F) : TimerCall F → TimerResult F
  | addTimer addr now interval func recursive =>
      .timer (m.addTimerOf addr now interval func recursive).1
  | other op => (op.exec m).1

/-- The reading of the clock that a call makes. -/
def TimerCall.reading : TimerCall F → Option Int
  | addTimer _ now _ _ _ => some now
  | other (.addTimer _ now _ _ _) => some now
  | other (.cancel _) => none
  | other (.refresh _ now) => some now
  | other (.reset _ _ fromNow now) => if fromNow then some now else none
  | other (.expiredFunctions now _) => some now

/-- The interval that a call is given. -/
def TimerCall.interval : TimerCall F → Option Int
  | addTimer _ _ interval _ _ => some interval
  | other (.addTimer _ _ interval _ _) => some interval
  | other (.reset _ interval _ _) => some interval
  | _ => none

/-- A call and what it returned. -/
structure CallEvent (F : Type) : Type where
  call : TimerCall F
  result : TimerResult F

def EventStep (m : TimeManager F) (e : CallEvent F) (m' : TimeManager F) : Prop :=
  CallStep m e.call m' ∧ e.call.result m = e.result

namespace CallEvent

/-- When each timer was last armed, after one more event. A timer that is handed out and is
not recursive is not armed any more, and what stands for it is of no consequence. -/
def arm (armed : TimerPtr → Int) (e : CallEvent F) : TimerPtr → Int :=
  match e.call, e.result with
  | .addTimer _ now _ _ _, .timer t => Function.update armed t now
  | .other (.addTimer _ now _ _ _), .timer t => Function.update armed t now
  | .other (.refresh t now), .flag true => Function.update armed t now
  | .other (.reset t _ true now), .flag true => Function.update armed t now
  | .other (.expiredFunctions now _), .functions out =>
      fun t => if t ∈ out.map Prod.fst then now else armed t
  | _, _ => armed

/-- When each timer was last armed. -/
def lastArmed (es : List (CallEvent F)) : TimerPtr → Int := es.foldl arm fun _ => 0

theorem lastArmed_snoc (es : List (CallEvent F)) (e : CallEvent F) :
    lastArmed (es ++ [e]) = e.arm (lastArmed es) := by
  rw [lastArmed, List.foldl_append]
  rfl

end CallEvent

/-- The answer to `refresh` or `reset` on a timer is true: it is whether the timer is armed;
after `true` the timer is armed for `interval` after `start`, and after `false` nothing has
changed. -/
structure TimeManager.Tells (m : TimeManager F) (t : TimerPtr) (start interval : Int)
    (result : TimerResult F) (m' : TimeManager F) : Prop where
  answers : result = .flag true ↔ t ∈ m.timers
  armed : result = .flag true → t ∈ m'.timers ∧ (m'.heap t).interval = interval ∧
    (m'.heap t).expire = toInt64 (start + interval)
  refused : result ≠ .flag true → result = .flag false ∧ m' = m

/-- A `refresh` or `reset` tells the truth; `armed` is when the timers were last armed. -/
def CallEvent.Truthful (armed : TimerPtr → Int) (m : TimeManager F) (e : CallEvent F)
    (m' : TimeManager F) : Prop :=
  match e.call with
  | .other (.refresh t now) => m.Tells t now (m.heap t).interval e.result m'
  | .other (.reset t interval fromNow now) =>
      m.Tells t (if fromNow then now else armed t) interval e.result m'
  | _ => True

/-- The condition: a `refresh`, or a `reset` that changes something, is not of a timer in the
set without a function, and a `reset` that changes nothing is of a timer in the set. -/
def TimerCall.Reports (m : TimeManager F) : TimerCall F → Prop
  | other (.refresh t _) => t ∈ m.timers → m.Live t
  | other (.reset t interval fromNow _) =>
      if (m.heap t).interval = interval ∧ fromNow = false then t ∈ m.timers
      else t ∈ m.timers → m.Live t
  | _ => True

namespace TimeManager

variable {m m' : TimeManager F} {t : TimerPtr} {armed : TimerPtr → Int}

/-- The set is in order, and every timer in it expires its interval after it was armed. -/
structure Armed (armed : TimerPtr → Int) (m : TimeManager F) : Prop where
  ordered : m.Ordered []
  expires : ∀ t ∈ m.timers, (m.heap t).expire = toInt64 (armed t + (m.heap t).interval)

theorem armed_init : Armed (fun _ => 0) (init : TimeManager F) :=
  ⟨held_init.ordered, fun _ member => absurd member List.not_mem_nil⟩

/-- The start that `reset` reconstructs is as good as the time itself. -/
theorem toInt64_restart (start old new : Int) :
    toInt64 (toInt64 (toInt64 (start + old) - old) + new) = toInt64 (start + new) := by
  rw [toInt64, toInt64, toInt64, toInt64, Int.bmod_sub_bmod, Int.bmod_add_bmod, Int.add_sub_cancel]

/-- How a timer of the set stands after a call. -/
inductive Stands (armed : TimerPtr → Int) (m : TimeManager F) (e : CallEvent F)
    (m' : TimeManager F) (u : TimerPtr) : Prop
  /-- As it was. -/
  | kept : u ∈ m.timers → (m'.heap u).expire = (m.heap u).expire →
      (m'.heap u).interval = (m.heap u).interval → e.arm armed u = armed u → Stands armed m e m' u
  /-- Armed at the reading of the call. -/
  | rearmed : e.arm armed u ∈ e.call.reading →
      (m'.heap u).expire = toInt64 (e.arm armed u + (m'.heap u).interval) →
      (m'.heap u).interval ∈ e.call.interval ∨
        u ∈ m.timers ∧ (m'.heap u).interval = (m.heap u).interval → Stands armed m e m' u
  /-- With another interval from the time it was armed. -/
  | restarted : u ∈ m.timers → e.arm armed u = armed u →
      (m'.heap u).expire = toInt64 (toInt64 ((m.heap u).expire - (m.heap u).interval) +
        (m'.heap u).interval) →
      (m'.heap u).interval ∈ e.call.interval → Stands armed m e m' u

/-- A call that changes neither the timers nor the times they were armed. -/
theorem stands_same {e : CallEvent F} (same : e.arm armed = armed) :
    ∀ u ∈ m.timers, Stands armed m e m u :=
  fun u member => .kept member rfl rfl (congrFun same u)

/-- A call that changes one timer of the set. -/
theorem stands_move {e : CallEvent F} (members : ∀ u, u ∈ m'.timers ↔ u ∈ m.timers)
    {timer : Timer F} (heap : m'.heap = Function.update m.heap t timer)
    (others : ∀ u, u ≠ t → e.arm armed u = armed u) (here : Stands armed m e m' t) :
    ∀ u ∈ m'.timers, Stands armed m e m' u := by
  intro u member
  by_cases same : u = t
  · rw [same]
    exact here
  · have old : m'.heap u = m.heap u := by rw [heap, Function.update_of_ne same]
    exact .kept ((members u).mp member) (by rw [old]) (by rw [old]) (others u same)

theorem Ordered.stands_addTimerOf (ordered : m.Ordered []) (func : Option F) {addr : Nat}
    (free : ∀ u ∈ m.timers, (m.heap u).addr ≠ addr) {now interval : Int}
    {recursive : Bool} {e : CallEvent F}
    (arms : e.arm armed = Function.update armed m.allocated now)
    (reads : now ∈ e.call.reading) (given : interval ∈ e.call.interval) :
    (m.addTimerOf addr now interval func recursive).2.Ordered [] ∧
      ∀ u ∈ (m.addTimerOf addr now interval func recursive).2.timers,
        Stands armed m e (m.addTimerOf addr now interval func recursive).2 u := by
  obtain ⟨m', added, ordered', members, heap, -⟩ :=
    ordered.addTimerOf free now interval func recursive
  rw [added]
  refine ⟨ordered', fun u member => ?_⟩
  rcases (members u).mp member with rfl | old
  · have start : e.arm armed m.allocated = now := by rw [arms, Function.update_self]
    have timer := congrFun heap m.allocated
    rw [Function.update_self] at timer
    refine .rearmed ?_ ?_ (Or.inl ?_)
    · rw [start]
      exact reads
    · rw [start, timer]
    · rw [timer]
      exact given
  · have other : u ≠ m.allocated := Nat.ne_of_lt (ordered.allocated u (Or.inl old))
    have same : m'.heap u = m.heap u := by rw [heap, Function.update_of_ne other]
    refine .kept old (by rw [same]) (by rw [same]) ?_
    rw [arms, Function.update_of_ne other]

/-- The timers that are left after `cancel` are as they were. -/
theorem Ordered.stands_cancel (ordered : m.Ordered []) (t : TimerPtr) {e : CallEvent F}
    (same : e.arm armed = armed) :
    (m.cancel t).2.Ordered [] ∧ ∀ u ∈ (m.cancel t).2.timers, Stands armed m e (m.cancel t).2 u := by
  by_cases live : m.Live t
  · have member := (ordered.live t live).resolve_right List.not_mem_nil
    obtain ⟨it, found, taken, members⟩ := ordered.find_erase member
    rw [cancel_found live found]
    refine ⟨taken.drop, fun u left => ?_⟩
    have other : u ≠ t := by
      rintro rfl
      exact taken.apart u List.mem_cons_self left
    have timer := heap_modify_of_ne other (m.erase it) fun timer => { timer with func := none }
    exact .kept ((members u).mp (Or.inl left)) (by rw [timer]; rfl) (by rw [timer]; rfl)
      (congrFun same u)
  · rw [cancel_dead live]
    exact ⟨ordered, stands_same same⟩

/-- `expiredFunctions` arms the recursive timers that it hands out, at its reading. -/
theorem Ordered.stands_expiredFunctions (ordered : m.Ordered []) {now : Int} {probe : Nat}
    {e : CallEvent F} (reads : now ∈ e.call.reading)
    (arms : e.arm armed = fun t =>
      if t ∈ (m.expiredFunctions now probe).1.map Prod.fst then now else armed t) :
    (m.expiredFunctions now probe).2.Ordered [] ∧
      ∀ u ∈ (m.expiredFunctions now probe).2.timers,
        Stands armed m e (m.expiredFunctions now probe).2 u := by
  obtain ⟨expired, m', done, expires, ordered'⟩ := ordered.expires now probe
  have handed : (expired.map fun t => (t, (m.heap t).func)).map Prod.fst = expired := by
    rw [List.map_map]
    exact List.map_id expired
  rw [done, handed] at arms
  rw [done]
  refine ⟨ordered', fun u member => ?_⟩
  rcases (expires.members u).mp member with ⟨old, later⟩ | ⟨due, again⟩
  · have left : u ∉ expired := fun due => absurd ((expires.exact u).mp due).2 (Int.not_le.mpr later)
    have same := expires.unchanged u left
    refine .kept old (by rw [same]) (by rw [same]) ?_
    rw [arms]
    exact if_neg left
  · have start : e.arm armed u = now := by
      rw [arms]
      exact if_pos due
    have timer := expires.rearmed u due again
    refine .rearmed (by rw [start]; exact reads) (by rw [start, timer]) (Or.inr ⟨?_, by rw [timer]⟩)
    exact ((expires.exact u).mp due).1

/-- What every call does to the timers of the set. -/
theorem Ordered.stands (ordered : m.Ordered []) {e : CallEvent F} (step : EventStep m e m')
    (armed : TimerPtr → Int) : m'.Ordered [] ∧ ∀ u ∈ m'.timers, Stands armed m e m' u := by
  obtain ⟨call, result⟩ := e
  obtain ⟨⟨enabled, ran⟩, returned⟩ := step
  dsimp only at enabled ran returned
  subst ran returned
  cases call with
  | addTimer addr now interval func recursive =>
      exact ordered.stands_addTimerOf func enabled rfl rfl rfl
  | other op =>
      cases op with
      | addTimer addr now interval func recursive =>
          exact ordered.stands_addTimerOf (some func) enabled rfl rfl rfl
      | cancel t => exact ordered.stands_cancel t rfl
      | refresh t now =>
          simp only [TimerCall.exec, TimerCall.result, TimerOp.exec]
          rcases ordered.refresh_cases t now with
            ⟨-, refused⟩ | ⟨-, member, m', done, ordered', members, -, heap⟩
          · rw [refused]
            exact ⟨ordered, stands_same rfl⟩
          · rw [done]
            refine ⟨ordered', stands_move members heap
              (fun u other => Function.update_of_ne other ..) (.rearmed ?_ ?_ (Or.inr ⟨member, ?_⟩))⟩
            · simp only [CallEvent.arm, Function.update_self]
              rfl
            · simp only [CallEvent.arm, heap, Function.update_self]
            · simp only [heap, Function.update_self]
      | reset t interval fromNow now =>
          simp only [TimerCall.exec, TimerCall.result, TimerOp.exec]
          rcases ordered.reset_cases t interval fromNow now with
            ⟨⟨-, rfl⟩, done⟩ | ⟨-, ⟨-, refused⟩ | ⟨-, member, m', done, ordered', members, -, heap⟩⟩
          · rw [done]
            exact ⟨ordered, stands_same rfl⟩
          · rw [refused]
            cases fromNow <;> exact ⟨ordered, stands_same rfl⟩
          · rw [done]
            refine ⟨ordered', ?_⟩
            cases fromNow with
            | true =>
                refine stands_move members heap (fun u other => Function.update_of_ne other ..)
                  (.rearmed ?_ ?_ (Or.inl ?_))
                · simp only [CallEvent.arm, Function.update_self]
                  rfl
                · simp only [CallEvent.arm, heap, Function.update_self, if_true]
                · simp only [heap, Function.update_self]
                  rfl
            | false =>
                refine stands_move members heap (fun u other => rfl) (.restarted member rfl ?_ ?_)
                · simp only [heap, Function.update_self, Bool.false_eq_true, if_false]
                · simp only [heap, Function.update_self]
                  rfl
      | expiredFunctions now probe => exact ordered.stands_expiredFunctions rfl rfl

/-- Every call keeps what is known of the timers. -/
theorem Armed.step (known : Armed armed m) {e : CallEvent F} (step : EventStep m e m') :
    Armed (e.arm armed) m' := by
  obtain ⟨ordered, stands⟩ := known.ordered.stands step armed
  refine ⟨ordered, fun u member => ?_⟩
  cases stands u member with
  | kept old expire interval start => rw [expire, interval, start, known.expires u old]
  | rearmed _ expire _ => exact expire
  | restarted old start expire _ => rw [expire, start, known.expires u old, toInt64_restart]

/-! ## When the answers are true -/

/-- A refusal is true of a timer that is out of the set. -/
theorem tells_refused_iff (dead : ¬m.Live t) (start interval : Int) :
    m.Tells t start interval (.flag false) m ↔ (t ∈ m.timers → m.Live t) := by
  have never : ¬(TimerResult.flag false : TimerResult F) = .flag true := by
    intro said
    cases said
  constructor
  · intro tells member
    exact absurd (tells.answers.mpr member) never
  · intro alive
    have outside : t ∉ m.timers := fun member => dead (alive member)
    exact ⟨iff_of_false never outside, fun said => absurd said never, fun _ => ⟨rfl, rfl⟩⟩

/-- A `refresh` tells the truth unless it meets a timer without a function in the set. -/
theorem Armed.tells_refresh_iff (known : Armed armed m) (t : TimerPtr) (now : Int) :
    m.Tells t now (m.heap t).interval (.flag (m.refresh t now).1) (m.refresh t now).2 ↔
      (t ∈ m.timers → m.Live t) := by
  rcases known.ordered.refresh_cases t now with
    ⟨dead, refused⟩ | ⟨live, member, m', done, -, members, -, heap⟩
  · rw [refused]
    exact tells_refused_iff dead _ _
  · rw [done]
    refine iff_of_true ⟨iff_of_true rfl member, fun _ => ⟨(members t).mpr member, ?_⟩,
      fun said => absurd rfl said⟩ fun _ => live
    rw [heap, Function.update_self]
    exact ⟨rfl, rfl⟩

/-- A `reset` tells the truth unless it answers without looking for the timer. -/
theorem Armed.tells_reset_iff (known : Armed armed m) (t : TimerPtr) (interval : Int)
    (fromNow : Bool) (now : Int) :
    m.Tells t (if fromNow then now else armed t) interval
        (.flag (m.reset t interval fromNow now).1) (m.reset t interval fromNow now).2 ↔
      if (m.heap t).interval = interval ∧ fromNow = false then t ∈ m.timers
      else t ∈ m.timers → m.Live t := by
  rcases known.ordered.reset_cases t interval fromNow now with
    ⟨same, done⟩ | ⟨other, ⟨dead, refused⟩ | ⟨live, member, m', done, -, members, -, heap⟩⟩
  · rw [done, if_pos same]
    obtain ⟨unchanged, rfl⟩ := same
    refine ⟨fun tells => tells.answers.mp rfl, fun member => ?_⟩
    refine ⟨iff_of_true rfl member, fun _ => ⟨member, unchanged, ?_⟩, fun said => absurd rfl said⟩
    rw [known.expires t member, unchanged]
    rfl
  · rw [refused, if_neg other]
    exact tells_refused_iff dead _ _
  · rw [done, if_neg other]
    refine iff_of_true ⟨iff_of_true rfl member, fun _ => ⟨(members t).mpr member, ?_⟩,
      fun said => absurd rfl said⟩ fun _ => live
    rw [heap, Function.update_self]
    refine ⟨rfl, ?_⟩
    cases fromNow with
    | true => rfl
    | false =>
        simp only [Bool.false_eq_true, if_false, known.expires t member, toInt64_restart]

theorem Armed.truthful_iff (known : Armed armed m) {e : CallEvent F} (step : EventStep m e m') :
    e.Truthful armed m m' ↔ e.call.Reports m := by
  obtain ⟨call, result⟩ := e
  obtain ⟨⟨-, ran⟩, returned⟩ := step
  dsimp only at ran returned
  subst ran returned
  cases call with
  | addTimer => exact Iff.rfl
  | other op =>
      cases op with
      | refresh t now => exact known.tells_refresh_iff t now
      | reset t interval fromNow now => exact known.tells_reset_iff t interval fromNow now
      | addTimer => exact Iff.rfl
      | cancel => exact Iff.rfl
      | expiredFunctions => exact Iff.rfl

theorem armed_of_run {es : List (CallEvent F)} (run : Run EventStep init es m) :
    Armed (CallEvent.lastArmed es) m := by
  refine run.historyInvariant (I := fun es m => Armed (CallEvent.lastArmed es) m) armed_init ?_
  intro es m e m' known step
  rw [CallEvent.lastArmed_snoc]
  exact known.step step

/-- **When `reset` and `refresh` tell the truth.** For every sequence of calls on the timers,
with any intervals, functions and clock readings: every `reset` and `refresh` in it returns
whether the timer is armed, arms it for the new interval after the reading or after the time
it was last armed, and changes nothing when it returns false, if and only if each of them is
made on a timer that it cannot be wrong about. -/
theorem reset_refresh_truthful_iff (events : List (CallEvent F)) :
    (∀ before e m m', before ++ [e] <+: events → Run EventStep init before m →
        EventStep m e m' → e.Truthful (CallEvent.lastArmed before) m m') ↔
      ∀ before e m m', before ++ [e] <+: events → Run EventStep init before m →
        EventStep m e m' → e.call.Reports m := by
  constructor
  · intro truthful before e m m' within run step
    exact ((armed_of_run run).truthful_iff step).mp (truthful before e m m' within run step)
  · intro reports before e m m' within run step
    exact ((armed_of_run run).truthful_iff step).mpr (reports before e m m' within run step)

/-- A timer that has fired and is not recursive. -/
def firedOnce : List (CallEvent Nat) :=
  [⟨.addTimer 64 5 10 (some 7) false, .timer 0⟩,
    ⟨.other (.expiredFunctions 15 96), .functions [(0, some 7)]⟩]

/-- A timer without a function. -/
def addedEmpty : List (CallEvent Nat) := [⟨.addTimer 64 5 10 none false, .timer 0⟩]

/-- `reset` to the interval that a timer has says `true` after the timer has fired, and
`refresh` of a timer that was added without a function says `false` while it is in the set. -/
theorem not_reset_refresh_truthful :
    (∃ m m' : TimeManager Nat, Run EventStep init firedOnce m ∧ m.timers = [] ∧
      EventStep m ⟨.other (.reset 0 10 false 20), .flag true⟩ m' ∧
      ¬CallEvent.Truthful (CallEvent.lastArmed firedOnce) m
        ⟨.other (.reset 0 10 false 20), .flag true⟩ m') ∧
    ∃ m m' : TimeManager Nat, Run EventStep init addedEmpty m ∧ m.timers = [0] ∧
      EventStep m ⟨.other (.refresh 0 8), .flag false⟩ m' ∧
      ¬CallEvent.Truthful (CallEvent.lastArmed addedEmpty) m
        ⟨.other (.refresh 0 8), .flag false⟩ m' := by
  constructor
  · refine ⟨_, _, Run.cons ⟨⟨by decide, rfl⟩, rfl⟩ (Run.single ⟨⟨by decide, rfl⟩, rfl⟩), by decide,
      ⟨⟨by decide, rfl⟩, rfl⟩, fun tells => ?_⟩
    exact absurd (tells.answers.mp rfl) (by decide)
  · refine ⟨_, _, Run.single ⟨⟨by decide, rfl⟩, rfl⟩, by decide, ⟨⟨by decide, rfl⟩, rfl⟩,
      fun tells => ?_⟩
    exact absurd (tells.answers.mpr (by decide)) (by simp)

end TimeManager

end Reyao
