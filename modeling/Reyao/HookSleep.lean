import Reyao.TimerExpiry

/-!
# Hooked sleeps (`hook.cc`)

A hooked `sleep`, `usleep` or `nanosleep` puts a timer of its own into the set and
suspends; the timer hands the coroutine back. Each of them turns its argument into
milliseconds in an integer type of its own. Nobody else has the timer, so until it is handed
out the other calls on the set leave it alone, and `sleep_never_early_iff` says for which
arguments it does not come back too early.
-/

namespace Reyao

open Lib

/-- A `timespec` without negative parts; `time_t` and `long` have 64 bits. -/
structure Timespec : Type where
  tv_sec : Int
  tv_nsec : Int
  sec_nonneg : 0 ≤ tv_sec := by decide
  sec_lt : tv_sec < 2 ^ 63 := by decide
  nsec_nonneg : 0 ≤ tv_nsec := by decide
  nsec_lt : tv_nsec < 2 ^ 63 := by decide

/-- A call of one of the hooked functions. `unsigned int` and `useconds_t` have 32 bits. -/
inductive SleepCall : Type
  | sleep (seconds : UInt32)
  | usleep (usec : UInt32)
  | nanosleep (req : Timespec)

namespace SleepCall

/-- The interval that goes to `addTimer`, in milliseconds. -/
def interval : SleepCall → Int
  | sleep seconds => (seconds * 1000).toNat
  | usleep usec => (usec / 1000).toNat
  | nanosleep req => toInt64 (toInt64 (req.tv_sec * 1000) + req.tv_nsec.tdiv 1000000)

/-- The duration asked for, in nanoseconds. -/
def nanoseconds : SleepCall → Int
  | sleep seconds => seconds.toNat * 10 ^ 9
  | usleep usec => usec.toNat * 10 ^ 3
  | nanosleep req => req.tv_sec * 10 ^ 9 + req.tv_nsec

/-- What the call does to the timers, at the reading `now` of `GetCurrentMs`; `func` is the
task that resumes the coroutine, `addr` where the allocator puts the timer. -/
def exec {F : Type} (call : SleepCall) (addr : Nat) (now : Int) (func : F) (m : TimeManager F) :
    TimerPtr × TimeManager F :=
  m.addTimer addr now call.interval func false

end SleepCall

/-- The call is made on the timer `t` itself. -/
def TimerCall.IsOn {F : Type} (t : TimerPtr) : TimerCall F → Prop
  | .other (.cancel u) => u = t
  | .other (.refresh u _) => u = t
  | .other (.reset u _ _ _) => u = t
  | _ => False

/-- After the call at the reading `now`, whatever others then do with the timers of their
own, a reading from `now` on that hands the coroutine back is not before the duration is
over. -/
def NeverEarly {F : Type} (m : TimeManager F) (call : SleepCall) (addr : Nat) (now : Int)
    (func : F) : Prop :=
  ∀ calls m' later probe resumed, now ≤ later →
    Run (Guarded (fun _ other => ¬other.IsOn (call.exec addr now func m).1) CallStep)
      (call.exec addr now func m).2 calls m' →
    ((call.exec addr now func m).1, resumed) ∈ (m'.expiredFunctions later probe).1 →
    now * 10 ^ 6 + call.nanoseconds ≤ later * 10 ^ 6

/-- The conversions are exact: a whole number of milliseconds that neither its own integer
type nor the expiry time overflows. -/
def SleepCall.Exact (now : Int) : SleepCall → Prop
  | .sleep seconds => seconds.toNat * 1000 < 2 ^ 32 ∧ now + seconds.toNat * 1000 < 2 ^ 63
  | .usleep usec => 1000 ∣ usec.toNat ∧ now + usec.toNat / 1000 < 2 ^ 63
  | .nanosleep req => 10 ^ 6 ∣ req.tv_nsec ∧
      now + (req.tv_sec * 1000 + req.tv_nsec / 10 ^ 6) < 2 ^ 63

namespace TimeManager

variable {F : Type} {m m' : TimeManager F} {t : TimerPtr} {expire : Int}

/-- A timer for one expiry at a fixed time. -/
structure Once (m : TimeManager F) (t : TimerPtr) (expire : Int) : Prop where
  allocated : t < m.allocated
  once : (m.heap t).recursive = false
  fixed : (m.heap t).expire = expire

/-- Another timer is neither moved nor changed. -/
def Keeps (m m' : TimeManager F) (t : TimerPtr) : Prop :=
  m'.heap t = m.heap t ∧ m'.allocated = m.allocated

theorem keeps_cancel {u : TimerPtr} (other : t ≠ u) : m.Keeps (m.cancel u).2 t := by
  rw [TimeManager.cancel]
  split
  · simp only
    split
    · exact ⟨Function.update_of_ne other _ _, rfl⟩
    · exact ⟨Function.update_of_ne other _ _, rfl⟩
  · exact ⟨rfl, rfl⟩

theorem keeps_refresh {u : TimerPtr} (other : t ≠ u) (now : Int) :
    m.Keeps (m.refresh u now).2 t := by
  rw [TimeManager.refresh]
  split
  · exact ⟨rfl, rfl⟩
  · split
    · exact ⟨rfl, rfl⟩
    · exact ⟨Function.update_of_ne other _ _, rfl⟩

theorem keeps_reset {u : TimerPtr} (other : t ≠ u) (interval : Int) (fromNow : Bool) (now : Int) :
    m.Keeps (m.reset u interval fromNow now).2 t := by
  rw [TimeManager.reset]
  split
  · exact ⟨rfl, rfl⟩
  · split
    · exact ⟨rfl, rfl⟩
    · split
      · exact ⟨rfl, rfl⟩
      · simp only
        generalize (if fromNow = true then now else toInt64 _) = start
        split
        · exact ⟨Function.update_of_ne other _ _, rfl⟩
        · exact ⟨Function.update_of_ne other _ _, rfl⟩

theorem Once.keeps (once : m.Once t expire) (keeps : m.Keeps m' t) : m'.Once t expire := by
  obtain ⟨heap, allocated⟩ := keeps
  exact ⟨by rw [allocated]; exact once.allocated, by rw [heap]; exact once.once,
    by rw [heap]; exact once.fixed⟩

theorem Once.addTimerOf (once : m.Once t expire) (addr : Nat) (now interval : Int)
    (func : Option F) (recursive : Bool) :
    (m.addTimerOf addr now interval func recursive).2.Once t expire := by
  have old : t ≠ m.allocated := Nat.ne_of_lt once.allocated
  have heap : (m.addTimerOf addr now interval func recursive).2.heap t = m.heap t := by
    rw [TimeManager.addTimerOf]
    simp only
    split
    · exact Function.update_of_ne old ..
    · exact Function.update_of_ne old ..
  have allocated : (m.addTimerOf addr now interval func recursive).2.allocated =
      m.allocated + 1 := by
    rw [TimeManager.addTimerOf]
    simp only
    split
    · rfl
    · rfl
  exact ⟨by rw [allocated]; exact Nat.lt_succ_of_lt once.allocated,
    by rw [heap]; exact once.once, by rw [heap]; exact once.fixed⟩

theorem allocated_expireAll (now : Int) (ts : List TimerPtr) (m : TimeManager F) :
    (m.expireAll now ts).2.allocated = m.allocated := by
  induction ts generalizing m with
  | nil => rfl
  | cons u ts ih =>
      rw [TimeManager.expireAll]
      simp only
      rw [ih, TimeManager.expireOne]
      simp only
      split
      · rfl
      · rfl

/-- Its own expiry takes the function and leaves the time. -/
theorem Once.expiredFunctions (once : m.Once t expire) (ordered : m.Ordered []) (now : Int)
    (probe : Nat) : (m.expiredFunctions now probe).2.Once t expire := by
  have allocated : (m.expiredFunctions now probe).2.allocated = m.allocated := by
    rw [TimeManager.expiredFunctions]
    split
    · rfl
    · exact allocated_expireAll now _ _
  obtain ⟨expired, m', done, expires, -⟩ := ordered.expires now probe
  rw [done] at allocated ⊢
  refine ⟨by rw [allocated]; exact once.allocated, ?_, ?_⟩
  · by_cases due : t ∈ expired
    · rw [expires.dropped t due once.once]
      exact once.once
    · rw [expires.unchanged t due]
      exact once.once
  · by_cases due : t ∈ expired
    · rw [expires.dropped t due once.once]
      exact once.fixed
    · rw [expires.unchanged t due]
      exact once.fixed

/-- Calls on other timers leave this one alone. -/
theorem Once.call (once : m.Once t expire) (ordered : m.Ordered []) {call : TimerCall F}
    (elsewhere : ¬call.IsOn t) (step : CallStep m call m') : m'.Once t expire := by
  obtain ⟨-, rfl⟩ := step
  cases call with
  | addTimer addr now interval func recursive =>
      exact once.addTimerOf addr now interval func recursive
  | other op =>
      cases op with
      | addTimer addr now interval func recursive =>
          exact once.addTimerOf addr now interval (some func) recursive
      | cancel u => exact once.keeps (keeps_cancel fun same => elsewhere same.symm)
      | refresh u now => exact once.keeps (keeps_refresh (fun same => elsewhere same.symm) now)
      | reset u interval fromNow now =>
          exact once.keeps (keeps_reset (fun same => elsewhere same.symm) interval fromNow now)
      | expiredFunctions now probe => exact once.expiredFunctions ordered now probe

/-- In a run that leaves the timer alone it keeps its time. -/
theorem Once.run {calls : List (TimerCall F)} (once : m.Once t expire) (ordered : m.Ordered [])
    (run : Run (Guarded (fun _ call => ¬call.IsOn t) CallStep) m calls m') :
    m'.Once t expire ∧ m'.Ordered [] :=
  run.invariant (I := fun m => m.Once t expire ∧ m.Ordered []) ⟨once, ordered⟩
    fun inv step => ⟨inv.1.call inv.2 step.1 step.2, inv.2.call step.2⟩

end TimeManager

/-- The first reading that hands the coroutine back is late enough exactly when the
conversions are exact. -/
theorem SleepCall.exact_iff (call : SleepCall) {now : Int} (least : -2 ^ 63 ≤ now)
    (most : now < 2 ^ 63) :
    call.Exact now ↔ now * 10 ^ 6 + call.nanoseconds ≤
      max now (toInt64 (now + call.interval)) * 10 ^ 6 := by
  cases call with
  | sleep seconds =>
      have small := seconds.toNat_lt
      have product : (seconds * 1000).toNat = seconds.toNat * 1000 % 2 ^ 32 :=
        UInt32.toNat_mul seconds 1000
      rw [SleepCall.Exact, SleepCall.nanoseconds, SleepCall.interval, product, toInt64,
        Int.bmod_def]
      by_cases fits : seconds.toNat * 1000 < 2 ^ 32
      · rw [Nat.mod_eq_of_lt fits]
        omega
      · -- what is left is at least `2^32` short
        have short : seconds.toNat * 1000 % 2 ^ 32 + 2 ^ 32 ≤ seconds.toNat * 1000 := by omega
        generalize seconds.toNat * 1000 % 2 ^ 32 = left at short
        omega
  | usleep usec =>
      have small := usec.toNat_lt
      have quotient : (usec / 1000).toNat = usec.toNat / 1000 := UInt32.toNat_div usec 1000
      rw [SleepCall.Exact, SleepCall.nanoseconds, SleepCall.interval, quotient, toInt64,
        Int.bmod_def]
      omega
  | nanosleep req =>
      have nsec := req.nsec_nonneg
      have sec := req.sec_nonneg
      rw [SleepCall.Exact, SleepCall.nanoseconds, SleepCall.interval,
        Int.tdiv_eq_ediv_of_nonneg nsec, toInt64, toInt64, toInt64, Int.bmod_def, Int.bmod_def,
        Int.bmod_def]
      omega

namespace TimeManager

variable {F : Type} {m : TimeManager F}

/-- The timer of a sleep goes into the set, once and for its own time. -/
theorem Ordered.sleeps (ordered : m.Ordered []) (call : SleepCall) {addr : Nat}
    (free : ∀ u ∈ m.timers, (m.heap u).addr ≠ addr) (now : Int) (func : F) :
    ∃ m', call.exec addr now func m = (m.allocated, m') ∧ m'.Ordered [] ∧
      m.allocated ∈ m'.timers ∧ m'.Once m.allocated (toInt64 (now + call.interval)) := by
  obtain ⟨m', added, ordered', members, heap, allocated, -⟩ :=
    ordered.addTimerOf free now call.interval (some func) false
  refine ⟨m', added, ordered', (members _).mpr (Or.inl rfl), ?_, ?_, ?_⟩
  · rw [allocated]
    exact Nat.lt_succ_self _
  · rw [heap, Function.update_self]
  · rw [heap, Function.update_self]

/-- A timer is handed out at a reading exactly when it is there and its time has come. -/
theorem Ordered.handed_iff (ordered : m.Ordered []) (now : Int) (probe : Nat) (t : TimerPtr) :
    (∃ resumed, (t, resumed) ∈ (m.expiredFunctions now probe).1) ↔
      t ∈ m.timers ∧ (m.heap t).expire ≤ now := by
  obtain ⟨expired, m', done, expires, -⟩ := ordered.expires now probe
  rw [done, ← expires.exact t]
  constructor
  · rintro ⟨resumed, member⟩
    obtain ⟨u, due, same⟩ := List.mem_map.mp member
    rw [← (Prod.mk.inj same).1]
    exact due
  · intro due
    exact ⟨_, List.mem_map_of_mem due⟩

end TimeManager

/-- **When a hooked sleep never returns early.** For every timer set that calls can lead to
and every reading of the clock, a hooked sleep is handed back only when its duration is over,
in every later run with a clock that does not go back, exactly when its argument is a whole
number of milliseconds that the conversions do not overflow. -/
theorem sleep_never_early_iff {F : Type} {m : TimeManager F} {calls : List (TimerCall F)}
    (run : Run CallStep .init calls m) (call : SleepCall) {addr : Nat}
    (free : ∀ u ∈ m.timers, (m.heap u).addr ≠ addr) {now : Int} (least : -2 ^ 63 ≤ now)
    (most : now < 2 ^ 63) (func : F) : NeverEarly m call addr now func ↔ call.Exact now := by
  have ordered : m.Ordered [] := run.invariant (I := fun m => m.Ordered [])
    TimeManager.held_init.ordered fun ordered step => ordered.call step
  obtain ⟨m₁, slept, ordered₁, member, once⟩ := ordered.sleeps call free now func
  rw [call.exact_iff least most, NeverEarly, slept]
  constructor
  · intro never
    -- nobody does anything until the first reading that hands it back
    obtain ⟨resumed, handed⟩ := (ordered₁.handed_iff (max now (toInt64 (now + call.interval))) 0
      m.allocated).mpr ⟨member, by rw [once.fixed]; exact le_max_right _ _⟩
    exact never [] m₁ _ 0 resumed (le_max_left _ _) (Run.nil m₁) handed
  · intro enough others m₂ later probe resumed not_back after handed
    obtain ⟨once₂, ordered₂⟩ := once.run ordered₁ after
    obtain ⟨-, due⟩ := (ordered₂.handed_iff later probe m.allocated).mp ⟨resumed, handed⟩
    rw [once₂.fixed] at due
    have first := max_le not_back due
    omega

/-- Three seconds. -/
theorem sleep_three_seconds : NeverEarly (.init : TimeManager Nat) (.sleep 3) 64 1000 7 :=
  (sleep_never_early_iff (Run.nil _) (.sleep 3) (by decide) (by decide) (by decide) 7).mpr
    ⟨by decide, by decide⟩

/-- `sleep(4294968)`, about fifty days, is over after 704 milliseconds, and `usleep(1500)`
after one. -/
theorem sleeps_return_early :
    (SleepCall.sleep 4294968).interval = 704 ∧
      ¬NeverEarly (.init : TimeManager Nat) (.sleep 4294968) 64 0 7 ∧
      ¬NeverEarly (.init : TimeManager Nat) (.usleep 1500) 64 0 7 := by
  refine ⟨by decide, fun never => ?_, fun never => ?_⟩
  · exact absurd (never [] _ 704 0 (some 7) (by decide) (Run.nil _) (by decide)) (by decide)
  · exact absurd (never [] _ 1 0 (some 7) (by decide) (Run.nil _) (by decide)) (by decide)

end Reyao
