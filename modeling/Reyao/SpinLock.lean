import Reyao.Lib.Run
import Mathlib.Data.Finset.Card
import Mathlib.Data.Fintype.Basic
import Mathlib.Algebra.Order.Ring.Int

/-!
# The spin lock (`coroutine.h`)

`CoroutineSpinLock` lets in the thread that takes `sem` from one to zero. All others
watch the sign of `sem`, which every further arrival lowers.

A step is one atomic access of `sem`: the decrement of `lock`, a read of its loop, or
the increment of `unlock`. The threads are the elements of `T`; `LockGuard` calls
`lock` and `unlock` in pairs, as the threads do here.
-/

namespace Reyao

open Lib

/-- Where a thread is. -/
inductive SpinPc : Type
  | out
  /-- In the loop of `lock`. -/
  | spinning
  /-- `lock` has returned, and `unlock` has not yet incremented `sem`. -/
  | holding
  deriving DecidableEq

/-- `CoroutineSpinLock` and the threads that use it. -/
structure SpinLock (T : Type) : Type where
  sem : Int := 1
  pc : T → SpinPc := fun _ => .out

inductive SpinLabel (T : Type) : Type
  | lock (t : T)
  | read (t : T)
  | unlock (t : T)
  deriving DecidableEq

namespace SpinLock

variable {T : Type} [DecidableEq T]

/-- Where a thread goes that has seen a value of `sem`. -/
def seen (sem : Int) : SpinPc := if sem < 0 then .spinning else .holding

def step (s : SpinLock T) : SpinLabel T → Option (SpinLock T)
  | .lock t =>
      if s.pc t = .out then
        let sem := s.sem - 1
        some { sem := sem, pc := Function.update s.pc t (seen sem) }
      else none
  | .read t =>
      if s.pc t = .spinning then
        some { s with pc := Function.update s.pc t (seen s.sem) }
      else none
  | .unlock t =>
      if s.pc t = .holding then
        some { sem := s.sem + 1, pc := Function.update s.pc t .out }
      else none

/-! ## Exclusion -/

/-- The threads inside are those that have decremented `sem` and not incremented it
since. -/
structure Counts (s : SpinLock T) (inside : Finset T) : Prop where
  members : ∀ t, t ∈ inside ↔ s.pc t ≠ .out
  sem : s.sem = 1 - inside.card
  exclusive : ∀ t u, s.pc t = .holding → s.pc u = .holding → t = u

variable {s s' : SpinLock T} {inside : Finset T} {e : SpinLabel T}

omit [DecidableEq T] in
theorem counts_start : ({} : SpinLock T).Counts ∅ :=
  ⟨fun _ => by simp, by simp, fun _ _ held => by cases held⟩

theorem seen_eq_holding {sem : Int} : seen sem = .holding ↔ 0 ≤ sem := by
  rw [seen]
  split
  · rename_i negative
    exact iff_of_false SpinPc.noConfusion (by omega)
  · rename_i positive
    exact iff_of_true rfl (by omega)

theorem seen_ne_out (sem : Int) : seen sem ≠ .out := by
  rw [seen]
  split <;> exact SpinPc.noConfusion

/-- A thread that has seen `sem` is the only holder, because nobody else is inside. -/
theorem Counts.enter (counts : s.Counts inside) {t : T} {sem : Int} {entered : Finset T}
    (others : ∀ u, u ≠ t → (u ∈ entered ↔ s.pc u ≠ .out)) (here : t ∈ entered)
    (value : sem = 1 - entered.card) :
    ({ sem := sem, pc := Function.update s.pc t (seen sem) } : SpinLock T).Counts entered := by
  have alone : seen sem = .holding → ∀ u ∈ entered, u = t := by
    intro held u member
    have few : entered.card ≤ 1 := by
      have positive := seen_eq_holding.mp held
      omega
    exact Finset.card_le_one.mp few u member t here
  refine ⟨fun u => ?_, value, fun u v heldU heldV => ?_⟩
  · change u ∈ entered ↔ Function.update s.pc t (seen sem) u ≠ .out
    by_cases same : u = t
    · subst same
      rw [Function.update_self]
      exact iff_of_true here (seen_ne_out sem)
    · rw [Function.update_of_ne same]
      exact others u same
  · change Function.update s.pc t (seen sem) u = .holding at heldU
    change Function.update s.pc t (seen sem) v = .holding at heldV
    -- a holder other than `t` is inside, so `t` has not seen the lock free
    have inner : ∀ w, w ≠ t → s.pc w = .holding → w ∈ entered := by
      intro w other held
      refine (others w other).mpr ?_
      rw [held]
      exact SpinPc.noConfusion
    by_cases sameU : u = t
    · by_cases sameV : v = t
      · rw [sameU, sameV]
      · rw [sameU, Function.update_self] at heldU
        rw [Function.update_of_ne sameV] at heldV
        rw [sameU, alone heldU v (inner v sameV heldV)]
    · rw [Function.update_of_ne sameU] at heldU
      by_cases sameV : v = t
      · rw [sameV, Function.update_self] at heldV
        rw [sameV, alone heldV u (inner u sameU heldU)]
      · rw [Function.update_of_ne sameV] at heldV
        exact counts.exclusive u v heldU heldV

theorem Counts.leave (counts : s.Counts inside) {t : T} (held : s.pc t = .holding) :
    ({ sem := s.sem + 1, pc := Function.update s.pc t .out } : SpinLock T).Counts
      (inside.erase t) := by
  have here : t ∈ inside := by
    rw [counts.members, held]
    exact SpinPc.noConfusion
  refine ⟨fun u => ?_, ?_, fun u v heldU heldV => ?_⟩
  · change u ∈ inside.erase t ↔ Function.update s.pc t .out u ≠ .out
    rw [Finset.mem_erase]
    by_cases same : u = t
    · subst same
      rw [Function.update_self]
      exact iff_of_false (fun both => both.1 rfl) (fun other => other rfl)
    · rw [Function.update_of_ne same, counts.members]
      exact and_iff_right same
  · change s.sem + 1 = _
    have some_inside : 0 < inside.card := Finset.card_pos.mpr ⟨t, here⟩
    rw [counts.sem, Finset.card_erase_of_mem here]
    omega
  · change Function.update s.pc t .out u = .holding at heldU
    change Function.update s.pc t .out v = .holding at heldV
    have old : ∀ w, Function.update s.pc t .out w = .holding → s.pc w = .holding := by
      intro w now
      by_cases same : w = t
      · rw [same, Function.update_self] at now
        cases now
      · rwa [Function.update_of_ne same] at now
    exact counts.exclusive u v (old u heldU) (old v heldV)

theorem Counts.step (counts : s.Counts inside) (ran : s.step e = some s') :
    ∃ inside', s'.Counts inside' := by
  cases e with
  | lock t =>
      simp only [SpinLock.step] at ran
      split at ran
      · rename_i out
        cases ran
        have outside : t ∉ inside := by
          rw [counts.members]
          exact not_not.mpr out
        refine ⟨insert t inside, counts.enter (fun u other => ?_) (Finset.mem_insert_self t _) ?_⟩
        · rw [Finset.mem_insert, or_iff_right other, counts.members]
        · rw [Finset.card_insert_of_notMem outside, counts.sem]
          omega
      · cases ran
  | read t =>
      simp only [SpinLock.step] at ran
      split at ran
      · rename_i spins
        cases ran
        have here : t ∈ inside := by
          rw [counts.members, spins]
          exact SpinPc.noConfusion
        exact ⟨inside, counts.enter (fun u _ => counts.members u) here counts.sem⟩
      · cases ran
  | unlock t =>
      simp only [SpinLock.step] at ran
      split at ran
      · rename_i held
        cases ran
        exact ⟨_, counts.leave held⟩
      · cases ran

theorem counts_of_run {es : List (SpinLabel T)} (run : Run (Steps step) {} es s) :
    ∃ inside, s.Counts inside :=
  run.invariant (I := fun s => ∃ inside, s.Counts inside) ⟨∅, counts_start⟩
    fun ⟨_, counts⟩ ran => counts.step ran

/-- **The lock excludes.** However many threads lock and unlock, in whatever order, two
of them never hold the lock at the same time. -/
theorem one_holder {es : List (SpinLabel T)} (run : Run (Steps step) {} es s) :
    ∀ t u, s.pc t = .holding → s.pc u = .holding → t = u := by
  obtain ⟨inside, counts⟩ := counts_of_run run
  exact counts.exclusive

/-- One thread has the lock while another one spins. -/
def handOver : List (SpinLabel (Fin 2)) := [.lock 0, .lock 1, .read 1, .unlock 0, .read 1]

theorem handed_over :
    ∃ s : SpinLock (Fin 2), Run (Steps step) {} handOver s ∧ s.pc 1 = .holding ∧
      ∀ t u, s.pc t = .holding → s.pc u = .holding → t = u := by
  have run := run_of_exec (exec_get (show (exec step {} handOver).isSome = true by decide))
  exact ⟨_, run, by decide, one_holder run⟩

/-! ## Waiting -/

/-- Somebody spins, and nobody is left who would raise `sem`. -/
def Stuck (s : SpinLock T) : Prop :=
  (∃ t, s.pc t = .spinning) ∧ (∀ t, s.pc t ≠ .holding) ∧ s.sem < 0

instance [Fintype T] (s : SpinLock T) : Decidable s.Stuck :=
  inferInstanceAs (Decidable (_ ∧ _ ∧ _))

/-- No thread calls `lock` while another one spins. -/
def NoWaiter (s : SpinLock T) : SpinLabel T → Prop
  | .lock _ => ∀ u, s.pc u ≠ .spinning
  | _ => True

instance [Fintype T] (s : SpinLock T) : (e : SpinLabel T) → Decidable (s.NoWaiter e)
  | .lock _ => inferInstanceAs (Decidable (∀ _, _))
  | .read _ => inferInstanceAs (Decidable True)
  | .unlock _ => inferInstanceAs (Decidable True)

/-- At most one thread spins. -/
def OneWaiter (s : SpinLock T) : Prop :=
  ∀ t u, s.pc t = .spinning → s.pc u = .spinning → t = u

omit [DecidableEq T] in
/-- With at most one thread that spins, somebody holds the lock whenever `sem` is
negative. -/
theorem OneWaiter.not_stuck (one : s.OneWaiter) (counts : s.Counts inside) : ¬s.Stuck := by
  rintro ⟨-, unheld, negative⟩
  have spins : ∀ t ∈ inside, s.pc t = .spinning := by
    intro t member
    cases here : s.pc t with
    | out => exact absurd here ((counts.members t).mp member)
    | spinning => rfl
    | holding => exact absurd here (unheld t)
  have few : inside.card ≤ 1 :=
    Finset.card_le_one.mpr fun t memT u memU => one t u (spins t memT) (spins u memU)
  rw [counts.sem] at negative
  omega

/-- Who spins after a step, spun before it or has just called `lock`. -/
theorem spinning_of_step (ran : s.step e = some s') {t : T} (spins : s'.pc t = .spinning) :
    s.pc t = .spinning ∨ e = .lock t := by
  have moved : ∀ {u : T} {pc : SpinPc}, s'.pc = Function.update s.pc u pc →
      (s.pc t = .spinning ∧ t ≠ u) ∨ (t = u ∧ pc = .spinning) := by
    intro u pc now
    rw [now] at spins
    by_cases same : t = u
    · rw [same, Function.update_self] at spins
      exact Or.inr ⟨same, spins⟩
    · rw [Function.update_of_ne same] at spins
      exact Or.inl ⟨spins, same⟩
  cases e with
  | lock u =>
      simp only [step] at ran
      split at ran
      · cases ran
        rcases moved rfl with ⟨before, -⟩ | ⟨rfl, -⟩
        · exact Or.inl before
        · exact Or.inr rfl
      · cases ran
  | read u =>
      simp only [step] at ran
      split at ran
      · rename_i before
        cases ran
        rcases moved rfl with ⟨before, -⟩ | ⟨rfl, -⟩
        · exact Or.inl before
        · exact Or.inl before
      · cases ran
  | unlock u =>
      simp only [step] at ran
      split at ran
      · cases ran
        rcases moved rfl with ⟨before, -⟩ | ⟨-, spins⟩
        · exact Or.inl before
        · cases spins
      · cases ran

theorem OneWaiter.step (one : s.OneWaiter) (alone : s.NoWaiter e) (ran : s.step e = some s') :
    s'.OneWaiter := by
  intro t u spinsT spinsU
  rcases spinning_of_step ran spinsT with beforeT | rfl
  · rcases spinning_of_step ran spinsU with beforeU | rfl
    · exact one t u beforeT beforeU
    · exact absurd beforeT (alone t)
  · rcases spinning_of_step ran spinsU with beforeU | same
    · exact absurd beforeU (alone u)
    · cases same
      rfl

/-- A second thread that comes to spin leaves a lock that is stuck, or is so once the
holder has unlocked it. -/
theorem Counts.second_waiter (counts : s.Counts inside) (ran : s.step e = some s')
    (waiter : ¬s.NoWaiter e) :
    s'.Stuck ∨ ∃ t s'', s'.step (.unlock t) = some s'' ∧ s''.Stuck := by
  cases e with
  | read t => exact absurd trivial waiter
  | unlock t => exact absurd trivial waiter
  | lock t =>
      obtain ⟨u, spins⟩ := not_forall_not.mp waiter
      simp only [SpinLock.step] at ran
      split at ran
      · rename_i out
        cases ran
        have inner : ∀ w, s.pc w ≠ .out → w ∈ inside := fun w => (counts.members w).mpr
        have memU : u ∈ inside := inner u (by rw [spins]; exact SpinPc.noConfusion)
        have some_inside : 0 < inside.card := Finset.card_pos.mpr ⟨u, memU⟩
        have low : s.sem - 1 < 0 := by
          rw [counts.sem]
          omega
        have sees : seen (s.sem - 1) = .spinning := if_pos low
        rw [sees]
        have newcomer : Function.update s.pc t .spinning t = .spinning := Function.update_self ..
        have held_before : ∀ w, Function.update s.pc t .spinning w = .holding →
            s.pc w = .holding ∧ w ≠ t := by
          intro w held
          by_cases same : w = t
          · rw [same, Function.update_self] at held
            cases held
          · rw [Function.update_of_ne same] at held
            exact ⟨held, same⟩
        by_cases unheld : ∀ w, s.pc w ≠ .holding
        · exact Or.inl ⟨⟨t, newcomer⟩, fun w held => unheld w (held_before w held).1, low⟩
        · obtain ⟨h, held⟩ := not_forall_not.mp unheld
          have apart : u ≠ h := by
            rintro rfl
            rw [spins] at held
            cases held
          have other : h ≠ t := by
            rintro rfl
            rw [out] at held
            cases held
          have memH : h ∈ inside := inner h (by rw [held]; exact SpinPc.noConfusion)
          have two : 1 < inside.card := Finset.one_lt_card.mpr ⟨u, memU, h, memH, apart⟩
          have holds : Function.update s.pc t .spinning h = .holding := by
            rw [Function.update_of_ne other]
            exact held
          refine Or.inr ⟨h, _, if_pos holds, ⟨t, ?_⟩, fun w held' => ?_, ?_⟩
          · change Function.update (Function.update s.pc t .spinning) h .out t = .spinning
            rw [Function.update_of_ne (Ne.symm other)]
            exact newcomer
          · change Function.update (Function.update s.pc t .spinning) h .out w = .holding at held'
            by_cases same : w = h
            · rw [same, Function.update_self] at held'
              cases held'
            · rw [Function.update_of_ne same] at held'
              exact same (counts.exclusive w h (held_before w held').1 held)
          · change s.sem - 1 + 1 < 0
            rw [counts.sem]
            omega
      · cases ran

/-- **When the lock gets stuck.** As long as no thread calls `lock` while another one
spins, the lock is never stuck; after a call that does, it is stuck at once or after the
next `unlock`. -/
theorem never_stuck {es : List (SpinLabel T)} :
    (Run (Guarded NoWaiter (Steps step)) {} es s → ¬s.Stuck) ∧
      (Run (Steps step) {} es s → ∀ e s', s.step e = some s' → ¬s.NoWaiter e →
        s'.Stuck ∨ ∃ t s'', s'.step (.unlock t) = some s'' ∧ s''.Stuck) := by
  constructor
  · intro run
    obtain ⟨inside, counts⟩ := counts_of_run run.of_guarded
    have start : ({} : SpinLock T).OneWaiter := fun t u spins => by cases spins
    have one : s.OneWaiter :=
      run.invariant start fun one ran => one.step ran.1 ran.2
    exact one.not_stuck counts
  · intro run e s' ran waiter
    obtain ⟨inside, counts⟩ := counts_of_run run
    exact counts.second_waiter ran waiter

theorem hand_over_not_stuck :
    ∃ s : SpinLock (Fin 2), Run (Guarded NoWaiter (Steps step)) {} handOver s ∧ ¬s.Stuck := by
  have run : Run (Guarded NoWaiter (Steps step)) ({} : SpinLock (Fin 2)) handOver _ :=
    Run.cons ⟨by decide, rfl⟩ (Run.cons ⟨by decide, rfl⟩ (Run.cons ⟨by decide, rfl⟩
      (Run.cons ⟨by decide, rfl⟩ (Run.single ⟨by decide, rfl⟩))))
  exact ⟨_, run, never_stuck.1 run⟩

/-- Two threads spin while a third one has the lock and gives it back. -/
def twoWaiters : List (SpinLabel (Fin 3)) := [.lock 0, .lock 1, .lock 2, .unlock 0]

/-- The two wait for ever. -/
theorem not_never_stuck :
    ∃ s : SpinLock (Fin 3), Run (Steps step) {} twoWaiters s ∧ s.Stuck :=
  ⟨_, run_of_exec (exec_get (by decide)), by decide⟩

end SpinLock

end Reyao
