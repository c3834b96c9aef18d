import Mathlib.Algebra.Order.BigOperators.Group.List
import Mathlib.Algebra.Order.Ring.Nat
import Mathlib.Data.List.Nodup
import Reyao.Lib.Run

/-!
# Monitors

A monitor is shared data under one mutex with one condition variable. A call of a
procedure takes the mutex, waits on the condition until its guard holds, changes the
data, wakes all waiters where it says so, and gives the mutex back. A waiter may be
woken for no reason, and a woken one has to take the mutex again before it looks at
its guard.

* `Sound.run`: the mutex excludes, and the calls take effect one at a time, each under
  its guard, as if they were atomic (`Atomic`).
* `Attends.run`: no waiter sleeps on a guard that holds, if every change that makes a
  guard hold is announced (`Announces`).
* `rank_run`: left alone the calls come to rest, after a bounded number of steps.
* `quiet_calls`: and then each of them has returned or sleeps on a guard that fails.
-/

namespace Reyao.Lib

universe u v

/-- What a call does: `while (!guard) wait(); body; if (wakes) notifyAll();`. -/
structure Procedure (σ : Type u) : Type u where
  guard : σ → Bool
  body : σ → σ
  /-- Asked about the data after `body`. -/
  wakes : σ → Bool

/-- Where a call is. -/
inductive Place : Type
  /-- Before it has the mutex: at the beginning, or woken. -/
  | locking
  /-- With the mutex, before a test of the guard. -/
  | testing
  /-- On the condition variable. -/
  | asleep
  /-- Before `notifyAll`. -/
  | waking
  /-- Before the mutex is given back. -/
  | leaving
  | returned
  deriving DecidableEq

/-- The call has the mutex. -/
def Place.inside : Place → Bool
  | .testing | .waking | .leaving => true
  | _ => false

/-- The body of the call has run. -/
def Place.effected : Place → Bool
  | .waking | .leaving | .returned => true
  | _ => false

/-- `notifyAll` takes all sleepers off the condition variable. -/
def Place.woken : Place → Place
  | .asleep => .locking
  | p => p

/-- What a call under way has left to do, when there are `n` calls. One that is to wake
the others takes on what each of them has to do again. -/
def Place.cost (n : Nat) : Place → Nat
  | .locking => 2 * n + 4
  | .testing => 2 * n + 3
  | .asleep => 2 * n + 2
  | .waking => 2 * n + 2
  | .leaving => 1
  | .returned => 0

/-- The data, the mutex, and the calls in the order they were made. -/
structure Monitor (σ : Type u) (κ : Type v) : Type max u v where
  shared : σ
  holder : Option Nat := none
  calls : List (κ × Place) := []
  /-- The calls whose bodies have run, in the order these ran. -/
  done : List (Nat × κ) := []

inductive MonitorLabel (κ : Type v) : Type v
  | call (k : κ)
  | lock (i : Nat)
  | test (i : Nat)
  | notifyAll (i : Nat)
  | unlock (i : Nat)
  /-- A waiter is woken for no reason. -/
  | spurious (i : Nat)
  deriving DecidableEq

/-- The steps that calls under way take of themselves. -/
def MonitorLabel.internal {κ : Type v} : MonitorLabel κ → Bool
  | .call _ | .spurious _ => false
  | _ => true

namespace Monitor

variable {σ : Type u} {κ : Type v} {P : κ → Procedure σ} {s s' : Monitor σ κ}
  {e : MonitorLabel κ}

/-- The call `i` is of the procedure `k` and has come to `p`. -/
def At (s : Monitor σ κ) (i : Nat) (k : κ) (p : Place) : Prop := s.calls[i]? = some (k, p)

/-- The calls with `i` moved to `p`. -/
def moved (s : Monitor σ κ) (i : Nat) (k : κ) (p : Place) : List (κ × Place) := s.calls.set i (k, p)

/-- The calls with all sleepers woken. -/
def awoken (s : Monitor σ κ) : List (κ × Place) := s.calls.map fun c => (c.1, c.2.woken)

def step (P : κ → Procedure σ) (s : Monitor σ κ) : MonitorLabel κ → Option (Monitor σ κ)
  | .call k => some { s with calls := s.calls ++ [(k, .locking)] }
  | .lock i =>
      match s.calls[i]?, s.holder with
      | some (k, .locking), none => some { s with holder := some i, calls := s.moved i k .testing }
      | _, _ => none
  | .test i =>
      match s.calls[i]? with
      | some (k, .testing) =>
          if (P k).guard s.shared then
            let shared := (P k).body s.shared
            let next : Place := if (P k).wakes shared then .waking else .leaving
            some { s with
              shared := shared, calls := s.moved i k next, done := s.done ++ [(i, k)] }
          else some { s with holder := none, calls := s.moved i k .asleep }
      | _ => none
  | .notifyAll i =>
      match s.calls[i]? with
      | some (k, .waking) => some { s with calls := s.awoken.set i (k, .leaving) }
      | _ => none
  | .unlock i =>
      match s.calls[i]? with
      | some (k, .leaving) => some { s with holder := none, calls := s.moved i k .returned }
      | _ => none
  | .spurious i =>
      match s.calls[i]? with
      | some (k, .asleep) => some { s with calls := s.moved i k .locking }
      | _ => none

/-- The ways a step can go. -/
inductive Goes (P : κ → Procedure σ) (s : Monitor σ κ) : MonitorLabel κ → Monitor σ κ → Prop
  | call (k : κ) : Goes P s (.call k) { s with calls := s.calls ++ [(k, .locking)] }
  | lock {i : Nat} {k : κ} : s.At i k .locking → s.holder = none →
      Goes P s (.lock i) { s with holder := some i, calls := s.moved i k .testing }
  | enters {i : Nat} {k : κ} {next : Place} : s.At i k .testing →
      (P k).guard s.shared = true →
      next = (if (P k).wakes ((P k).body s.shared) then .waking else .leaving) →
      Goes P s (.test i) { s with
        shared := (P k).body s.shared, calls := s.moved i k next, done := s.done ++ [(i, k)] }
  | waits {i : Nat} {k : κ} : s.At i k .testing → (P k).guard s.shared = false →
      Goes P s (.test i) { s with holder := none, calls := s.moved i k .asleep }
  | notifyAll {i : Nat} {k : κ} : s.At i k .waking →
      Goes P s (.notifyAll i) { s with calls := s.awoken.set i (k, .leaving) }
  | unlock {i : Nat} {k : κ} : s.At i k .leaving →
      Goes P s (.unlock i) { s with holder := none, calls := s.moved i k .returned }
  | spurious {i : Nat} {k : κ} : s.At i k .asleep →
      Goes P s (.spurious i) { s with calls := s.moved i k .locking }

theorem goes_of_step (ran : step P s e = some s') : Goes P s e s' := by
  cases e with
  | call k =>
      cases ran
      exact .call k
  | lock i =>
      simp only [step] at ran
      split at ran
      · rename_i here free
        cases ran
        exact .lock here free
      · cases ran
  | test i =>
      simp only [step] at ran
      split at ran
      · rename_i here
        split at ran
        · rename_i holds
          cases ran
          exact .enters here holds rfl
        · rename_i fails
          cases ran
          exact .waits here (Bool.eq_false_iff.mpr fails)
      · cases ran
  | notifyAll i =>
      simp only [step] at ran
      split at ran
      · rename_i here
        cases ran
        exact .notifyAll here
      · cases ran
  | unlock i =>
      simp only [step] at ran
      split at ran
      · rename_i here
        cases ran
        exact .unlock here
      · cases ran
  | spurious i =>
      simp only [step] at ran
      split at ran
      · rename_i here
        cases ran
        exact .spurious here
      · cases ran

/-! ## Where the calls are after a step -/

section

variable {i j : Nat} {k k' : κ} {p p' q : Place} {t : Monitor σ κ}

theorem At.lt (here : s.At i k p) : i < s.calls.length :=
  (List.getElem?_eq_some_iff.mp here).1

theorem At.unique (here : s.At i k p) (there : s.At i k' p') : k = k' ∧ p = p' := by
  have same : some (k, p) = some (k', p') := here.symm.trans there
  cases same
  exact ⟨rfl, rfl⟩

theorem at_called (calls : t.calls = s.calls ++ [(k, .locking)]) :
    t.At j k' p' ↔ s.At j k' p' ∨ (j = s.calls.length ∧ k' = k ∧ p' = .locking) := by
  unfold At
  rw [calls]
  rcases Nat.lt_trichotomy j s.calls.length with less | same | more
  · rw [List.getElem?_append_left less]
    exact (or_iff_left fun last => Nat.ne_of_lt less last.1).symm
  · rw [same, List.getElem?_concat_length, List.getElem?_eq_none (Nat.le_refl _), Option.some_inj,
      Prod.mk.injEq]
    constructor
    · rintro ⟨rfl, rfl⟩
      exact Or.inr ⟨rfl, rfl, rfl⟩
    · rintro (impossible | ⟨-, rfl, rfl⟩)
      · cases impossible
      · exact ⟨rfl, rfl⟩
  · rw [List.getElem?_eq_none (Nat.le_of_lt more), List.getElem?_eq_none]
    · refine iff_of_false (fun impossible => by cases impossible) ?_
      rintro (impossible | last)
      · cases impossible
      · exact Nat.ne_of_gt more last.1
    · rw [List.length_append, List.length_singleton]
      exact more

theorem getElem?_set_at {l : List (κ × Place)} (inside : i < l.length) :
    (l.set i (k, q))[j]? = some (k', p') ↔
      (j = i ∧ k' = k ∧ p' = q) ∨ (j ≠ i ∧ l[j]? = some (k', p')) := by
  rcases eq_or_ne j i with rfl | other
  · rw [List.getElem?_set_self inside, Option.some_inj, Prod.mk.injEq]
    constructor
    · rintro ⟨rfl, rfl⟩
      exact Or.inl ⟨rfl, rfl, rfl⟩
    · rintro (⟨-, rfl, rfl⟩ | ⟨impossible, -⟩)
      · exact ⟨rfl, rfl⟩
      · exact absurd rfl impossible
  · rw [List.getElem?_set_ne other.symm]
    refine ⟨fun there => Or.inr ⟨other, there⟩, ?_⟩
    rintro (⟨same, -⟩ | ⟨-, there⟩)
    · exact absurd same other
    · exact there

theorem at_moved (calls : t.calls = s.moved i k q) (here : s.At i k p) :
    t.At j k' p' ↔ (j = i ∧ k' = k ∧ p' = q) ∨ (j ≠ i ∧ s.At j k' p') := by
  unfold At
  rw [calls]
  exact getElem?_set_at here.lt

theorem at_awoken (calls : t.calls = s.awoken.set i (k, q)) (here : s.At i k p) :
    t.At j k' p' ↔
      (j = i ∧ k' = k ∧ p' = q) ∨ (j ≠ i ∧ ∃ q, s.At j k' q ∧ p' = q.woken) := by
  have inside : i < s.awoken.length := by
    rw [awoken, List.length_map]
    exact here.lt
  have woken : s.awoken[j]? = some (k', p') ↔ ∃ q, s.At j k' q ∧ p' = q.woken := by
    rw [awoken, List.getElem?_map, Option.map_eq_some_iff]
    constructor
    · rintro ⟨⟨k'', q⟩, there, same⟩
      cases same
      exact ⟨q, there, rfl⟩
    · rintro ⟨q, there, rfl⟩
      exact ⟨(k', q), there, rfl⟩
  unfold At
  rw [calls, getElem?_set_at inside, woken]
  rfl

end

/-! ## Exclusion and atomicity -/

/-- What a call does to the data, in one step. -/
def Atomic (P : κ → Procedure σ) (d : σ) (k : κ) (d' : σ) : Prop :=
  (P k).guard d = true ∧ d' = (P k).body d

/-- The mutex excludes, and the bodies run so far are a run of atomic calls. -/
structure Sound (P : κ → Procedure σ) (start : σ) (s : Monitor σ κ) : Prop where
  mutex : ∀ {i k p}, s.At i k p → (p.inside = true ↔ s.holder = some i)
  held : ∀ {i}, s.holder = some i → i < s.calls.length
  effected : ∀ {i k}, (i, k) ∈ s.done ↔ ∃ p, s.At i k p ∧ p.effected = true
  once : s.done.Nodup
  atomic : Run (Atomic P) start (s.done.map Prod.snd) s.shared

theorem sound_new (start : σ) : Sound P start ({ shared := start } : Monitor σ κ) where
  mutex here := absurd here.lt (Nat.not_lt_zero _)
  held impossible := by cases impossible
  effected {i k} := by
    refine iff_of_false List.not_mem_nil ?_
    rintro ⟨p, here, -⟩
    exact Nat.not_lt_zero _ here.lt
  once := List.nodup_nil
  atomic := Run.nil start

/-- Two calls are not inside together. -/
theorem Sound.exclusive {start : σ} (sound : Sound P start s) {i j : Nat} {k k' : κ}
    {p p' : Place} (here : s.At i k p) (there : s.At j k' p') (inside : p.inside = true)
    (inside' : p'.inside = true) : i = j := by
  have first := (sound.mutex here).mp inside
  have second := (sound.mutex there).mp inside'
  exact Option.some.inj (first.symm.trans second)

/-- A call that moves without running its body. -/
theorem Sound.move {start : σ} (sound : Sound P start s) {i : Nat} {k : κ} {p q : Place}
    {t : Monitor σ κ} (here : s.At i k p) (calls : t.calls = s.moved i k q)
    (shared : t.shared = s.shared) (done : t.done = s.done) (effected : q.effected = p.effected)
    (holder : q.inside = true ↔ t.holder = some i)
    (others : ∀ j ≠ i, t.holder = some j ↔ s.holder = some j) : Sound P start t where
  mutex {j k' p'} there := by
    rcases (at_moved calls here).mp there with ⟨rfl, -, rfl⟩ | ⟨other, before⟩
    · exact holder
    · exact (sound.mutex before).trans (others j other).symm
  held {j} holds := by
    rw [calls, moved, List.length_set]
    rcases eq_or_ne j i with rfl | other
    · exact here.lt
    · exact sound.held ((others j other).mp holds)
  effected {j k'} := by
    rw [done, sound.effected]
    constructor
    · rintro ⟨p', there, ran⟩
      rcases eq_or_ne j i with rfl | other
      · obtain ⟨rfl, rfl⟩ := here.unique there
        exact ⟨q, (at_moved calls here).mpr (Or.inl ⟨rfl, rfl, rfl⟩), effected.trans ran⟩
      · exact ⟨p', (at_moved calls here).mpr (Or.inr ⟨other, there⟩), ran⟩
    · rintro ⟨p', there, ran⟩
      rcases (at_moved calls here).mp there with ⟨rfl, rfl, rfl⟩ | ⟨-, before⟩
      · exact ⟨p, here, effected.symm.trans ran⟩
      · exact ⟨p', before, ran⟩
  once := done ▸ sound.once
  atomic := by
    rw [done, shared]
    exact sound.atomic

theorem woken_inside (p : Place) : p.woken.inside = p.inside := by cases p <;> rfl

theorem woken_effected (p : Place) : p.woken.effected = p.effected := by cases p <;> rfl

theorem Sound.step {start : σ} (sound : Sound P start s) (ran : step P s e = some s') :
    Sound P start s' := by
  cases goes_of_step ran with
  | call k =>
      refine ⟨fun {j k' p'} there => ?_, fun {j} holds => ?_, fun {j k'} => ?_, sound.once,
        sound.atomic⟩
      · rcases (at_called rfl).mp there with before | ⟨rfl, -, rfl⟩
        · exact sound.mutex before
        · refine iff_of_false Bool.noConfusion fun holds => ?_
          exact absurd (sound.held holds) (Nat.lt_irrefl _)
      · rw [List.length_append]
        exact Nat.lt_of_lt_of_le (sound.held holds) (Nat.le_add_right _ _)
      · refine sound.effected.trans ⟨?_, ?_⟩
        · rintro ⟨p', there, effected⟩
          exact ⟨p', (at_called rfl).mpr (Or.inl there), effected⟩
        · rintro ⟨p', there, effected⟩
          rcases (at_called rfl).mp there with before | ⟨-, -, rfl⟩
          · exact ⟨p', before, effected⟩
          · cases effected
  | @lock i k here free =>
      refine sound.move here rfl rfl rfl rfl (iff_of_true rfl rfl) fun j other => ?_
      rw [free]
      refine iff_of_false (fun same => ?_) (fun impossible => by cases impossible)
      exact other (Option.some.inj same).symm
  | @enters i k next here holds isNext =>
      have inside : next.inside = true := by
        rw [isNext]
        split <;> rfl
      have effected : next.effected = true := by
        rw [isNext]
        split <;> rfl
      have holder := (sound.mutex here).mp rfl
      have fresh : (i, k) ∉ s.done := by
        intro member
        obtain ⟨p', there, ran⟩ := sound.effected.mp member
        obtain ⟨-, rfl⟩ := here.unique there
        cases ran
      refine ⟨fun {j k' p'} there => ?_, fun {j} held => ?_, fun {j k'} => ?_, ?_, ?_⟩
      · rcases (at_moved rfl here).mp there with ⟨rfl, -, rfl⟩ | ⟨-, before⟩
        · exact iff_of_true inside holder
        · exact sound.mutex before
      · rw [moved, List.length_set]
        exact sound.held held
      · rw [List.mem_append, List.mem_singleton, Prod.mk.injEq, sound.effected]
        constructor
        · rintro (⟨p', there, ran⟩ | ⟨rfl, rfl⟩)
          · refine ⟨p', (at_moved rfl here).mpr (Or.inr ⟨?_, there⟩), ran⟩
            rintro rfl
            obtain ⟨-, rfl⟩ := here.unique there
            cases ran
          · exact ⟨next, (at_moved rfl here).mpr (Or.inl ⟨rfl, rfl, rfl⟩), effected⟩
        · rintro ⟨p', there, ran⟩
          rcases (at_moved rfl here).mp there with ⟨rfl, rfl, -⟩ | ⟨-, before⟩
          · exact Or.inr ⟨rfl, rfl⟩
          · exact Or.inl ⟨p', before, ran⟩
      · exact List.Nodup.append sound.once (List.nodup_singleton _)
          (List.disjoint_singleton.mpr fresh)
      · rw [List.map_append]
        exact sound.atomic.snoc ⟨holds, rfl⟩
  | @waits i k here fails =>
      have holder := (sound.mutex here).mp rfl
      refine sound.move here rfl rfl rfl rfl (by simp [Place.inside]) fun j other => ?_
      rw [holder]
      refine iff_of_false (fun impossible => by cases impossible) fun same => ?_
      exact other (Option.some.inj same).symm
  | @notifyAll i k here =>
      have holder := (sound.mutex here).mp rfl
      refine ⟨fun {j k' p'} there => ?_, fun {j} held => ?_, fun {j k'} => ?_, sound.once,
        sound.atomic⟩
      · rcases (at_awoken rfl here).mp there with ⟨rfl, -, rfl⟩ | ⟨-, q, before, rfl⟩
        · exact iff_of_true rfl holder
        · rw [woken_inside]
          exact sound.mutex before
      · rw [List.length_set, awoken, List.length_map]
        exact sound.held held
      · refine sound.effected.trans ⟨?_, ?_⟩
        · rintro ⟨p', there, ran⟩
          rcases eq_or_ne j i with rfl | other
          · obtain ⟨rfl, rfl⟩ := here.unique there
            exact ⟨.leaving, (at_awoken rfl here).mpr (Or.inl ⟨rfl, rfl, rfl⟩), rfl⟩
          · exact ⟨p'.woken, (at_awoken rfl here).mpr (Or.inr ⟨other, p', there, rfl⟩),
              (woken_effected p').trans ran⟩
        · rintro ⟨p', there, ran⟩
          rcases (at_awoken rfl here).mp there with ⟨rfl, rfl, -⟩ | ⟨-, q, before, rfl⟩
          · exact ⟨.waking, here, rfl⟩
          · exact ⟨q, before, (woken_effected q).symm.trans ran⟩
  | @unlock i k here =>
      have holder := (sound.mutex here).mp rfl
      refine sound.move here rfl rfl rfl rfl (by simp [Place.inside]) fun j other => ?_
      rw [holder]
      refine iff_of_false (fun impossible => by cases impossible) fun same => ?_
      exact other (Option.some.inj same).symm
  | @spurious i k here =>
      refine sound.move here rfl rfl rfl rfl ?_ fun _ _ => Iff.rfl
      exact (iff_of_false Bool.noConfusion Bool.noConfusion).trans (sound.mutex here)

theorem Sound.run {start : σ} {es : List (MonitorLabel κ)}
    (run : Run (Steps (Monitor.step P)) { shared := start } es s) : Sound P start s :=
  run.invariant (sound_new start) fun sound ran => sound.step ran

/-- Each body that has run is that of one call. -/
def Counted (s : Monitor σ κ) : Prop :=
  ∀ q : κ → Bool, s.done.countP (fun d => q d.2) = s.calls.countP fun c => q c.1 && c.2.effected

theorem countP_moved {i : Nat} {k : κ} {p r : Place} (q : κ → Bool) {l : List (κ × Place)}
    (here : l[i]? = some (k, p)) :
    (l.set i (k, r)).countP (fun c => q c.1 && c.2.effected) + (q k && p.effected).toNat =
      l.countP (fun c => q c.1 && c.2.effected) + (q k && r.effected).toNat := by
  induction l generalizing i with
  | nil => cases here
  | cons first rest ih =>
      cases i with
      | zero =>
          cases here
          simp only [List.set_cons_zero, List.countP_cons]
          cases q k <;> cases p.effected <;> cases r.effected <;> simp
      | succ i =>
          have below := ih (i := i) here
          simp only [List.set_cons_succ, List.countP_cons]
          omega

theorem Counted.move (counted : s.Counted) {i : Nat} {k : κ} {p r : Place} {t : Monitor σ κ}
    (here : s.At i k p) (calls : t.calls = s.moved i k r) (done : t.done = s.done)
    (effected : r.effected = p.effected) : t.Counted := by
  intro q
  have moves := countP_moved (r := r) q here
  rw [effected] at moves
  rw [done, calls, counted q, moved]
  omega

theorem Counted.step (counted : s.Counted) (ran : step P s e = some s') : s'.Counted := by
  cases goes_of_step ran with
  | call k =>
      intro q
      rw [List.countP_append, counted q]
      simp [Place.effected]
  | lock here => exact counted.move here rfl rfl rfl
  | @enters i k next here holds isNext =>
      intro q
      have moves := countP_moved (r := next) q here
      have effected : next.effected = true := by
        rw [isNext]
        split <;> rfl
      rw [effected] at moves
      change _ + (q k && false).toNat = _ at moves
      rw [Bool.and_false, Bool.and_true] at moves
      rw [List.countP_append, counted q, moved]
      cases which : q k with
      | false =>
          rw [which] at moves
          simp only [List.countP_singleton, which, Bool.false_eq_true, if_false]
          exact moves.symm
      | true =>
          rw [which] at moves
          simp only [List.countP_singleton, which, if_true]
          exact moves.symm
  | waits here => exact counted.move here rfl rfl rfl
  | @notifyAll i k here =>
      intro q
      have inside : s.awoken[i]? = some (k, .waking) := by
        unfold At at here
        rw [awoken, List.getElem?_map, here]
        rfl
      have moves := countP_moved (r := .leaving) q inside
      have same : s.awoken.countP (fun c => q c.1 && c.2.effected) =
          s.calls.countP fun c => q c.1 && c.2.effected := by
        rw [awoken, List.countP_map]
        refine List.countP_congr fun c _ => ?_
        rw [Function.comp_apply, woken_effected]
      rw [counted q, ← same]
      exact (Nat.add_right_cancel moves).symm
  | unlock here => exact counted.move here rfl rfl rfl
  | spurious here => exact counted.move here rfl rfl rfl

theorem Counted.run {start : σ} {es : List (MonitorLabel κ)}
    (run : Run (Steps (Monitor.step P)) { shared := start } es s) : s.Counted :=
  run.invariant (fun _ => rfl) fun counted ran => counted.step ran

/-! ## No lost wake-ups -/

/-- Every change of the data that makes a guard hold is followed by `notifyAll`. -/
def Announces (P : κ → Procedure σ) : Prop :=
  ∀ k k' d, (P k).guard d = true → (P k').guard d = false →
    (P k').guard ((P k).body d) = true → (P k).wakes ((P k).body d) = true

/-- A sleeper's guard fails, or somebody is about to wake it. -/
def Attends (P : κ → Procedure σ) (s : Monitor σ κ) : Prop :=
  ∀ i k, s.At i k .asleep → (P k).guard s.shared = false ∨ ∃ j k', s.At j k' .waking

theorem attends_new (start : σ) : Attends P ({ shared := start } : Monitor σ κ) :=
  fun _ _ here => absurd here.lt (Nat.not_lt_zero _)

/-- A call that leaves the data as they are, and that was not to wake anybody. -/
theorem Attends.move (attends : Attends P s) {i : Nat} {k : κ} {p q : Place} {t : Monitor σ κ}
    (here : s.At i k p) (calls : t.calls = s.moved i k q) (shared : t.shared = s.shared)
    (quiet : p ≠ .waking) (falls : q = .asleep → (P k).guard s.shared = false) :
    Attends P t := by
  intro j k' there
  rw [shared]
  rcases (at_moved calls here).mp there with ⟨rfl, rfl, sleeps⟩ | ⟨-, before⟩
  · exact Or.inl (falls sleeps.symm)
  · rcases attends _ _ before with fails | ⟨w, k'', wakes⟩
    · exact Or.inl fails
    · refine Or.inr ⟨w, k'', (at_moved calls here).mpr (Or.inr ⟨?_, wakes⟩)⟩
      rintro rfl
      exact quiet (here.unique wakes).2

theorem Attends.step (announces : Announces P) {start : σ} (sound : Sound P start s)
    (attends : Attends P s) (ran : step P s e = some s') : Attends P s' := by
  cases goes_of_step ran with
  | call k =>
      intro j k' there
      rcases (at_called rfl).mp there with before | ⟨-, -, impossible⟩
      · rcases attends _ _ before with fails | ⟨w, k'', wakes⟩
        · exact Or.inl fails
        · exact Or.inr ⟨w, k'', (at_called rfl).mpr (Or.inl wakes)⟩
      · cases impossible
  | lock here => exact attends.move here rfl rfl Place.noConfusion Place.noConfusion
  | @enters i k next here holds isNext =>
      intro j k' there
      rcases (at_moved rfl here).mp there with ⟨-, -, impossible⟩ | ⟨-, before⟩
      · rw [isNext] at impossible
        split at impossible <;> cases impossible
      · rcases attends _ _ before with fails | ⟨w, k'', wakes⟩
        · -- the change keeps the sleeper's guard false, or is announced
          rcases Bool.eq_false_or_eq_true ((P k').guard ((P k).body s.shared)) with after | after
          · refine Or.inr ⟨i, k, (at_moved rfl here).mpr (Or.inl ⟨rfl, rfl, ?_⟩)⟩
            rw [isNext, announces k k' s.shared holds fails after, if_pos rfl]
          · exact Or.inl after
        · have alone := sound.exclusive here wakes rfl rfl
          subst alone
          cases (here.unique wakes).2
  | waits here fails => exact attends.move here rfl rfl Place.noConfusion fun _ => fails
  | notifyAll here =>
      intro j k' there
      rcases (at_awoken rfl here).mp there with ⟨-, -, impossible⟩ | ⟨-, q, -, impossible⟩
      · cases impossible
      · cases q <;> cases impossible
  | unlock here => exact attends.move here rfl rfl Place.noConfusion Place.noConfusion
  | spurious here => exact attends.move here rfl rfl Place.noConfusion Place.noConfusion

theorem Attends.run (announces : Announces P) {start : σ} {es : List (MonitorLabel κ)}
    (run : Run (Steps (Monitor.step P)) { shared := start } es s) : Attends P s :=
  (run.invariant (I := fun s => Sound P start s ∧ Attends P s)
    ⟨sound_new start, attends_new start⟩
    fun held ran => ⟨held.1.step ran, held.2.step announces held.1 ran⟩).2

/-! ## Coming to rest -/

/-- No call can go on by itself. -/
def Quiet (P : κ → Procedure σ) (s : Monitor σ κ) : Prop :=
  ∀ e : MonitorLabel κ, e.internal = true → step P s e = none

/-- At rest the mutex is free, and each call has returned or sleeps on a guard that
fails. -/
theorem quiet_calls {start : σ} (sound : Sound P start s) (attends : Attends P s)
    (quiet : Quiet P s) :
    s.holder = none ∧ ∀ i k p, s.At i k p →
      p = .returned ∨ (p = .asleep ∧ (P k).guard s.shared = false) := by
  have still : ∀ i k p, s.At i k p → p.inside = false := by
    intro i k p here
    unfold At at here
    cases p with
    | testing =>
        have stuck := quiet (.test i) rfl
        simp only [step, here] at stuck
        split at stuck <;> cases stuck
    | waking =>
        have stuck := quiet (.notifyAll i) rfl
        simp only [step, here] at stuck
        cases stuck
    | leaving =>
        have stuck := quiet (.unlock i) rfl
        simp only [step, here] at stuck
        cases stuck
    | _ => rfl
  have free : s.holder = none := by
    rcases Option.eq_none_or_eq_some s.holder with free | ⟨i, holder⟩
    · exact free
    · obtain ⟨⟨k, p⟩, here⟩ : ∃ c, s.calls[i]? = some c :=
        ⟨_, List.getElem?_eq_getElem (sound.held holder)⟩
      have inside := (sound.mutex here).mpr holder
      rw [still i k p here] at inside
      cases inside
  refine ⟨free, fun i k p here => ?_⟩
  have outside := still _ _ _ here
  cases p with
  | locking =>
      have stuck := quiet (.lock i) rfl
      unfold At at here
      simp only [step, here, free] at stuck
      cases stuck
  | asleep =>
      refine Or.inr ⟨rfl, ?_⟩
      rcases attends i k here with fails | ⟨j, k', wakes⟩
      · exact fails
      · cases still _ _ _ wakes
  | returned => exact Or.inl rfl
  | _ => cases outside

/-- What all calls have left to do. -/
def rank (s : Monitor σ κ) : Nat := (s.calls.map fun c => c.2.cost s.calls.length).sum

theorem sum_map_set (f : κ × Place → Nat) {l : List (κ × Place)} {i : Nat} {c d : κ × Place}
    (here : l[i]? = some c) : ((l.set i d).map f).sum + f c = (l.map f).sum + f d := by
  induction l generalizing i with
  | nil => cases here
  | cons first rest ih =>
      cases i with
      | zero =>
          cases here
          simp only [List.set_cons_zero, List.map_cons, List.sum_cons]
          omega
      | succ i =>
          have below := ih (i := i) here
          simp only [List.set_cons_succ, List.map_cons, List.sum_cons]
          omega

theorem sum_map_woken (n : Nat) (l : List (κ × Place)) :
    ((l.map fun c => (c.1, c.2.woken)).map fun c => c.2.cost n).sum ≤
      (l.map fun c => c.2.cost n).sum + 2 * l.length := by
  induction l with
  | nil => exact Nat.le_refl _
  | cons first rest ih =>
      have one : first.2.woken.cost n ≤ first.2.cost n + 2 := by
        cases first.2 <;> simp only [Place.woken, Place.cost] <;> omega
      simp only [List.map_cons, List.sum_cons, List.length_cons]
      omega

theorem rank_moved {i : Nat} {k : κ} {p q : Place} {t : Monitor σ κ} (here : s.At i k p)
    (calls : t.calls = s.moved i k q)
    (less : q.cost s.calls.length < p.cost s.calls.length) : t.rank < s.rank := by
  have sums := sum_map_set (fun c => c.2.cost s.calls.length) (d := (k, q)) here
  unfold rank
  rw [calls, moved, List.length_set]
  dsimp only at sums
  omega

/-- Each step that a call takes of itself leaves less to do. -/
theorem rank_step (ran : step P s e = some s') (internal : e.internal = true) :
    s'.rank < s.rank := by
  cases goes_of_step ran with
  | call => cases internal
  | lock here =>
      refine rank_moved here rfl ?_
      simp only [Place.cost]
      omega
  | @enters i k next here holds isNext =>
      refine rank_moved here rfl ?_
      rw [isNext]
      split <;> simp only [Place.cost] <;> omega
  | waits here =>
      refine rank_moved here rfl ?_
      simp only [Place.cost]
      omega
  | @notifyAll i k here =>
      have inside : s.awoken[i]? = some (k, .waking) := by
        unfold At at here
        rw [awoken, List.getElem?_map, here]
        rfl
      have sums := sum_map_set (fun c => c.2.cost s.calls.length) (d := (k, .leaving)) inside
      have woken := sum_map_woken s.calls.length s.calls
      have before : Place.cost s.calls.length .waking = 2 * s.calls.length + 2 := rfl
      have after : Place.cost s.calls.length .leaving = 1 := rfl
      unfold rank awoken
      rw [List.length_set, List.length_map]
      unfold awoken at sums
      dsimp only at sums ⊢
      omega
  | unlock here =>
      refine rank_moved here rfl ?_
      simp only [Place.cost]
      omega
  | spurious => cases internal

theorem rank_le (s : Monitor σ κ) : s.rank ≤ s.calls.length * (2 * s.calls.length + 4) := by
  have each : ∀ x ∈ s.calls.map fun c => c.2.cost s.calls.length,
      x ≤ 2 * s.calls.length + 4 := by
    intro x member
    obtain ⟨c, -, rfl⟩ := List.mem_map.mp member
    cases c.2 <;> simp only [Place.cost] <;> omega
  have total := List.sum_le_card_nsmul _ _ each
  rwa [List.length_map, Nat.nsmul_eq_mul] at total

/-- The steps that the calls under way take of themselves are bounded by their number. -/
theorem rank_run {t : Monitor σ κ} {es : List (MonitorLabel κ)} (run : Run (Steps (step P)) s es t)
    (internal : ∀ e ∈ es, e.internal = true) : es.length + t.rank ≤ s.rank := by
  induction run with
  | nil => exact Nat.le_of_eq (Nat.zero_add _)
  | @snoc t u es e prior last ih =>
      have before := ih fun e member => internal e (List.mem_append_left _ member)
      have less := rank_step last (internal e (List.mem_append_right _ List.mem_cons_self))
      rw [List.length_append, List.length_singleton]
      omega

end Monitor

end Reyao.Lib
