import Reyao.TimerRun

/-!
# What expires

`expiredFunctions` cuts the set with a probe timer that has the present time and some
address of its own, and then goes on over the timers that expire right now, so the cut
does not depend on the address (`expiredEnd_eq`). `expired_functions_exact` says which
functions come out and what is left. Timers may have been added with an empty function,
so the state is only known to be `Ordered`.
-/

namespace Reyao

open Lib

variable {F : Type}

/-- An expired timer after the turn of the loop over it. -/
def Timer.expired (now : Int) (timer : Timer F) : Timer F :=
  if timer.recursive then { timer with expire := toInt64 (now + timer.interval) }
  else { timer with func := none }

/-! ## Calls -/

/-- A call on the timers, with `addTimer` for every function. -/
inductive TimerCall (F : Type) : Type
  | addTimer (addr : Nat) (now interval : Int) (func : Option F) (recursive : Bool)
  | other (op : TimerOp F)

namespace TimerCall

def exec (m : TimeManager F) : TimerCall F → TimeManager F
  | addTimer addr now interval func recursive =>
      (m.addTimerOf addr now interval func recursive).2
  | other op => (op.exec m).2

def Enabled (m : TimeManager F) : TimerCall F → Prop
  | addTimer addr _ _ _ _ => ∀ u ∈ m.timers, (m.heap u).addr ≠ addr
  | other op => op.Enabled m

instance (m : TimeManager F) : (call : TimerCall F) → Decidable (call.Enabled m)
  | addTimer addr _ _ _ _ => inferInstanceAs (Decidable (∀ u ∈ m.timers, (m.heap u).addr ≠ addr))
  | other op => inferInstanceAs (Decidable (op.Enabled m))

end TimerCall

def CallStep (m : TimeManager F) (call : TimerCall F) (m' : TimeManager F) : Prop :=
  call.Enabled m ∧ call.exec m = m'

namespace TimeManager

variable {m m' : TimeManager F} {t : TimerPtr} {out : List TimerPtr}

/-! ## The loop over the expired timers -/

theorem Ordered.expireOne (ordered : m.Ordered (t :: out)) (now : Int) :
    ∃ m', expireOne now t m = ((t, (m.heap t).func), m') ∧ m'.Ordered out ∧
      (∀ u, u ∈ m'.timers ↔ (u = t ∧ (m.heap t).recursive = true) ∨ u ∈ m.timers) ∧
      m'.heap = Function.update m.heap t ((m.heap t).expired now) := by
  rw [TimeManager.expireOne, Timer.expired]
  by_cases again : (m.heap t).recursive = true
  · rw [if_pos again, if_pos again]
    obtain ⟨back, members⟩ := ordered.rearm (f := fun timer =>
      { timer with expire := toInt64 (now + timer.interval) }) rfl rfl
    refine ⟨_, rfl, back, fun u => ?_, rfl⟩
    rw [members, and_iff_left again]
  · rw [if_neg again, if_neg again]
    refine ⟨_, rfl, ordered.drop, fun u => ?_, rfl⟩
    exact (or_iff_right fun both => again both.2).symm

theorem Ordered.expireAll {ts : List TimerPtr} (ordered : m.Ordered ts) (now : Int) :
    ∃ m', expireAll now ts m = (ts.map fun t => (t, (m.heap t).func), m') ∧ m'.Ordered [] ∧
      (∀ u, u ∈ m'.timers ↔ (u ∈ ts ∧ (m.heap u).recursive = true) ∨ u ∈ m.timers) ∧
      ∀ u, m'.heap u = if u ∈ ts then (m.heap u).expired now else m.heap u := by
  induction ts generalizing m with
  | nil =>
      refine ⟨m, rfl, ordered, fun u => ?_, fun u => (if_neg List.not_mem_nil).symm⟩
      exact (or_iff_right fun both => List.not_mem_nil both.1).symm
  | cons t ts ih =>
      obtain ⟨m₁, one, ordered₁, members₁, heap₁⟩ := ordered.expireOne now
      obtain ⟨m₂, rest, ordered₂, members₂, heap₂⟩ := ih ordered₁
      obtain ⟨notLater, -⟩ := List.nodup_cons.mp ordered.nodup
      -- the timers still to come are other timers, so the turn has not changed them
      have later : ∀ u ∈ ts, m₁.heap u = m.heap u := by
        intro u member
        rw [heap₁, Function.update_of_ne]
        rintro rfl
        exact notLater member
      refine ⟨m₂, ?_, ordered₂, fun u => ?_, fun u => ?_⟩
      · rw [TimeManager.expireAll, one]
        simp only [rest, List.map_cons, Prod.mk.injEq, List.cons.injEq, true_and, and_true]
        exact List.map_congr_left fun u member => by rw [later u member]
      · rw [members₂, members₁, List.mem_cons]
        constructor
        · rintro (⟨member, again⟩ | ⟨rfl, again⟩ | old)
          · rw [later u member] at again
            exact Or.inl ⟨Or.inr member, again⟩
          · exact Or.inl ⟨Or.inl rfl, again⟩
          · exact Or.inr old
        · rintro (⟨rfl | member, again⟩ | old)
          · exact Or.inr (Or.inl ⟨rfl, again⟩)
          · rw [← later u member] at again
            exact Or.inl ⟨member, again⟩
          · exact Or.inr (Or.inr old)
      · rw [heap₂]
        by_cases member : u ∈ ts
        · rw [if_pos member, if_pos (List.mem_cons_of_mem t member), later u member]
        · rw [if_neg member, heap₁]
          by_cases same : u = t
          · rw [same, Function.update_self, if_pos List.mem_cons_self]
          · rw [Function.update_of_ne same, if_neg (by simp [same, member])]

/-! ## The cut -/

/-- A timer before the probe has expired, and one that is not expires now or later. -/
theorem probe_cases (now : Int) (probe : Nat) (timer : Timer F) :
    (Timer.Comparator (some timer) (some { addr := probe, expire := now }) = true →
      timer.expire ≤ now) ∧
    (Timer.Comparator (some timer) (some { addr := probe, expire := now }) ≠ true →
      now ≤ timer.expire) := by
  rw [ne_eq, Timer.comparator_iff, Prod.Lex.toLex_lt_toLex]
  constructor
  · rintro (earlier | ⟨same, -⟩)
    · exact le_of_lt earlier
    · exact le_of_eq same
  · intro later
    exact not_lt.mp fun earlier => later (Or.inl earlier)

/-- The cut is behind the timers that have expired, wherever the probe is. -/
theorem expiredEnd_eq (sorted : OrderedSet.Sorted m.key m.timers) (now : Int) (probe : Nat) :
    m.expiredEnd now probe =
      (m.timers.takeWhile fun t => decide ((m.heap t).expire ≤ now)).length := by
  rw [expiredEnd]
  generalize m.timers = ts at sorted
  induction ts with
  | nil => rfl
  | cons t ts ih =>
      obtain ⟨first, rest⟩ := List.pairwise_cons.mp sorted
      obtain ⟨expired, later⟩ := probe_cases now probe (m.heap t)
      by_cases before :
          Timer.Comparator (some (m.heap t)) (some { addr := probe, expire := now }) = true
      · have ih := ih rest
        rw [List.takeWhile_cons_of_pos (p := fun t =>
            Timer.Comparator (some (m.heap t)) (some { addr := probe, expire := now })) before,
          List.takeWhile_cons_of_pos (p := fun t => decide ((m.heap t).expire ≤ now))
            (decide_eq_true (expired before)), List.length_cons,
          List.length_cons, List.drop_succ_cons, Nat.add_right_comm, ih]
      · -- from here on nothing expires before now, so what has expired expires now
        have due : ∀ u ∈ t :: ts, ((m.heap u).expire == now) =
            decide ((m.heap u).expire ≤ now) := by
          intro u member
          have late : now ≤ (m.heap u).expire := by
            rcases List.mem_cons.mp member with rfl | behind
            · exact later before
            · have less := first u behind
              rw [key, key, Prod.Lex.toLex_lt_toLex] at less
              have start := later before
              dsimp only at less
              omega
          rw [Bool.eq_iff_iff, beq_iff_eq, decide_eq_true_iff]
          omega
        rw [List.takeWhile_cons_of_neg (p := fun t =>
            Timer.Comparator (some (m.heap t)) (some { addr := probe, expire := now })) before]
        rw [List.length_nil, List.drop_zero, Nat.zero_add]
        rw [OrderedSet.takeWhile_congr due]

/-- The cut parts the timers that have expired from those that have not. -/
theorem Ordered.cut (ordered : m.Ordered []) (now : Int) (probe : Nat) :
    m.timers.take (m.expiredEnd now probe) =
        m.timers.filter (fun t => decide ((m.heap t).expire ≤ now)) ∧
      m.timers.drop (m.expiredEnd now probe) =
        m.timers.filter (fun t => !decide ((m.heap t).expire ≤ now)) := by
  have down : m.timers.Pairwise fun a b =>
      decide ((m.heap b).expire ≤ now) = true → decide ((m.heap a).expire ≤ now) = true := by
    refine List.Pairwise.imp (fun {a b} less => ?_) ordered.sorted
    rw [key, key, Prod.Lex.toLex_lt_toLex] at less
    dsimp only at less
    rw [decide_eq_true_iff, decide_eq_true_iff]
    omega
  obtain ⟨taken, left⟩ := OrderedSet.takeWhile_eq_filter down
  rw [expiredEnd_eq ordered.sorted, ← taken, ← left]
  generalize (fun t => decide ((m.heap t).expire ≤ now)) = due
  have parts := List.takeWhile_append_dropWhile (p := due) (l := m.timers)
  exact ⟨(List.prefix_iff_eq_take.mp (List.takeWhile_prefix due)).symm,
    (congrArg (List.drop _) parts).symm.trans List.drop_left⟩

/-- What `expiredFunctions` hands out and what it leaves. -/
structure Expires (m : TimeManager F) (now : Int) (expired : List TimerPtr)
    (m' : TimeManager F) : Prop where
  nodup : expired.Nodup
  exact : ∀ t, t ∈ expired ↔ t ∈ m.timers ∧ (m.heap t).expire ≤ now
  in_order : expired.Pairwise fun a b => (m.heap a).expire ≤ (m.heap b).expire
  members : ∀ t, t ∈ m'.timers ↔
    (t ∈ m.timers ∧ now < (m.heap t).expire) ∨ (t ∈ expired ∧ (m.heap t).recursive = true)
  ordered : m'.timers.Pairwise fun a b => m'.before a b = true
  unchanged : ∀ t, t ∉ expired → m'.heap t = m.heap t
  rearmed : ∀ t ∈ expired, (m.heap t).recursive = true →
    m'.heap t = { m.heap t with expire := toInt64 (now + (m.heap t).interval) }
  dropped : ∀ t ∈ expired, (m.heap t).recursive = false →
    m'.heap t = { m.heap t with func := none }

theorem Ordered.expires (ordered : m.Ordered []) (now : Int) (probe : Nat) :
    ∃ expired m', m.expiredFunctions now probe =
        (expired.map fun t => (t, (m.heap t).func), m') ∧
      m.Expires now expired m' ∧ m'.Ordered [] := by
  obtain ⟨first, second⟩ := ordered.cut now probe
  obtain ⟨taken, -⟩ := ordered.take (m.expiredEnd now probe)
  have nodup := taken.nodup
  have sub : (m.timers.take (m.expiredEnd now probe)).Sublist m.timers := List.take_sublist ..
  rw [first] at taken nodup sub
  rw [second] at taken
  obtain ⟨m', done, ordered', members, heap⟩ := taken.expireAll now
  have exact : ∀ t, t ∈ m.timers.filter (fun t => decide ((m.heap t).expire ≤ now)) ↔
      t ∈ m.timers ∧ (m.heap t).expire ≤ now := by
    intro t
    rw [List.mem_filter, decide_eq_true_iff]
  refine ⟨_, m', ?_, ⟨nodup, exact, ?_, fun t => ?_, ?_, fun t other => ?_, fun t expired again => ?_,
    fun t expired once => ?_⟩, ordered'⟩
  · rw [TimeManager.expiredFunctions]
    by_cases empty : m.timers.isEmpty = true
    · -- without timers the loop has nothing to do
      rw [if_pos empty]
      rw [List.isEmpty_iff] at empty
      rw [empty] at done ⊢
      rw [List.filter_nil, TimeManager.expireAll] at done
      have same : m = { m with timers := [] } := by
        rw [← empty]
      rw [List.filter_nil, List.map_nil, ← (Prod.mk.inj done).2]
      exact congrArg (Prod.mk []) same
    · rw [if_neg empty]
      simp only [first, second]
      exact done
  · refine List.Pairwise.imp (fun {a b} less => ?_) (ordered.sorted.sublist sub)
    rw [key, key, Prod.Lex.toLex_lt_toLex] at less
    dsimp only at less
    omega
  · rw [members]
    simp only [List.mem_filter, Bool.not_eq_true', decide_eq_false_iff_not, Int.not_le]
    exact or_comm
  · exact ordered'.sorted.imp fun {a b} less => (m'.before_iff a b).mpr less
  · rw [heap, if_neg other]
  · rw [heap, if_pos expired, Timer.expired, if_pos again]
  · rw [heap, if_pos expired, Timer.expired, if_neg (by rw [once]; exact Bool.false_ne_true)]

/-! ## Reachable sets -/

theorem Ordered.call (ordered : m.Ordered []) {call : TimerCall F} (step : CallStep m call m') :
    m'.Ordered [] := by
  obtain ⟨enabled, rfl⟩ := step
  cases call with
  | addTimer addr now interval func recursive =>
      obtain ⟨m₁, added, ordered₁, -⟩ :=
        ordered.addTimerOf enabled now interval func recursive
      rw [TimerCall.exec, added]
      exact ordered₁
  | other op =>
      cases op with
      | addTimer addr now interval func recursive =>
          obtain ⟨m₁, added, ordered₁, -⟩ :=
            ordered.addTimerOf enabled now interval (some func) recursive
          have same : (TimerCall.other (.addTimer addr now interval func recursive)).exec m =
              (m.addTimerOf addr now interval (some func) recursive).2 := rfl
          rw [same, added]
          exact ordered₁
      | cancel t =>
          simp only [TimerCall.exec, TimerOp.exec]
          by_cases live : m.Live t
          · obtain ⟨it, found, taken, -⟩ := ordered.find_erase
              ((ordered.live t live).resolve_right List.not_mem_nil)
            rw [cancel_found live found]
            exact taken.drop
          · rw [cancel_dead live]
            exact ordered
      | refresh t now =>
          simp only [TimerCall.exec, TimerOp.exec]
          rcases ordered.refresh_cases t now with
            ⟨-, refused⟩ | ⟨-, -, m₁, done, ordered₁, -⟩
          · rw [refused]
            exact ordered
          · rw [done]
            exact ordered₁
      | reset t interval fromNow now =>
          simp only [TimerCall.exec, TimerOp.exec]
          rcases ordered.reset_cases t interval fromNow now with
            ⟨-, done⟩ | ⟨-, ⟨-, refused⟩ | ⟨-, -, m₁, done, ordered₁, -⟩⟩
          · rw [done]
            exact ordered
          · rw [refused]
            exact ordered
          · rw [done]
            exact ordered₁
      | expiredFunctions now probe =>
          obtain ⟨expired, m₁, done, -, ordered₁⟩ := ordered.expires now probe
          simp only [TimerCall.exec, TimerOp.exec, done]
          exact ordered₁

/-- **`expiredFunctions` is exact.** For every timer set that calls can lead to, every
clock reading and every place of the probe, the functions handed out are those of the timers
with `expire_ <= now`, each once and in the order of `expire_`. The other timers stay as they
are. An expired timer goes back re-armed if it is recursive, and is gone with its function
if it is not. -/
theorem expired_functions_exact {calls : List (TimerCall F)} (run : Run CallStep init calls m)
    (now : Int) (probe : Nat) :
    ∃ expired m', m.expiredFunctions now probe =
        (expired.map fun t => (t, (m.heap t).func), m') ∧ m.Expires now expired m' := by
  have ordered : m.Ordered [] := run.invariant (I := fun m => m.Ordered [])
    held_init.ordered fun ordered step => ordered.call step
  obtain ⟨expired, m', done, expires, -⟩ := ordered.expires now probe
  exact ⟨expired, m', done, expires⟩

/-- Three timers for one instant: a single one, a recursive one and one without a function. -/
def sameInstant : List (TimerCall Nat) :=
  [.addTimer 64 5 10 (some 7) false, .addTimer 96 15 0 (some 8) true, .addTimer 32 5 10 none false]

theorem same_instant_exact : ∃ m : TimeManager Nat, Run CallStep init sameInstant m ∧
    m.timers = [2, 0, 1] ∧ ∃ expired m', m.expiredFunctions 15 64 =
      (expired.map fun t => (t, (m.heap t).func), m') ∧ m.Expires 15 expired m' := by
  have run : Run CallStep (init : TimeManager Nat) sameInstant _ :=
    Run.cons ⟨by decide, rfl⟩ (Run.cons ⟨by decide, rfl⟩ (Run.single ⟨by decide, rfl⟩))
  exact ⟨_, run, by decide, expired_functions_exact run 15 64⟩

end TimeManager

end Reyao
