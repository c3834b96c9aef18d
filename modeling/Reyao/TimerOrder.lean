import Reyao.Timer
import Mathlib.Data.Prod.Lex
import Mathlib.Data.Int.Order.Basic

/-!
# The order of `timers_`

Every operation takes a timer out of the set before it changes the expiry time
and puts it back afterwards. `Held m out` is what stays true in between: the set
is ordered by the current expiry times, and the timers with a function are those
in the set and those in `out`, the ones taken out.

What is left when the set, the addresses and the clock are forgotten is `Alarms`:
which functions are still to be handed out. Each operation is described by what
it does to them.
-/

namespace Reyao

open Lib

variable {F : Type}

/-- The comparator is the lexicographic order of expiry time and address. -/
theorem Timer.comparator_iff (l r : Timer F) :
    Timer.Comparator (some l) (some r) = true ↔
      toLex (l.expire, l.addr) < toLex (r.expire, r.addr) := by
  rw [Prod.Lex.toLex_lt_toLex]
  dsimp only [Timer.Comparator]
  rcases lt_trichotomy l.expire r.expire with less | same | greater
  · rw [if_pos less]
    exact iff_of_true rfl (Or.inl less)
  · rw [if_neg (by omega), if_neg (by omega), decide_eq_true_iff]
    exact ⟨fun addr => Or.inr ⟨same, addr⟩, fun h => h.elim (by omega) And.right⟩
  · rw [if_neg (by omega), if_pos greater]
    exact iff_of_false Bool.false_ne_true (fun h => h.elim (by omega) (fun both => by omega))

namespace TimeManager

variable {m : TimeManager F} {t : TimerPtr} {out : List TimerPtr}

/-- The place of a timer in the order. -/
def key (m : TimeManager F) (t : TimerPtr) : Int ×ₗ Nat :=
  toLex ((m.heap t).expire, (m.heap t).addr)

theorem before_iff (m : TimeManager F) (a b : TimerPtr) :
    m.before a b = true ↔ m.key a < m.key b :=
  Timer.comparator_iff _ _

/-- The order of the set looks at the keys only. -/
theorem find_congr {m' : TimeManager F} (keys : ∀ u, m'.key u = m.key u)
    (members : m'.timers = m.timers) (t : TimerPtr) : m'.find t = m.find t := by
  have order : m'.before = m.before := by
    funext a b
    rw [Bool.eq_iff_iff, before_iff, before_iff, keys, keys]
  rw [find, find, order, members]

/-- A function is still to be handed out. -/
def Live (m : TimeManager F) (t : TimerPtr) : Prop := (m.heap t).func ≠ none

structure Held (m : TimeManager F) (out : List TimerPtr) : Prop where
  sorted : OrderedSet.Sorted m.key m.timers
  live : ∀ t, t ∈ m.timers ∨ t ∈ out ↔ m.Live t
  apart : ∀ t ∈ out, t ∉ m.timers
  nodup : out.Nodup
  allocated : ∀ t, m.Live t → t < m.allocated
  addr_inj : ∀ a b, m.Live a → m.Live b → (m.heap a).addr = (m.heap b).addr → a = b

/-- The part of `Held` that does not ask whether the members have functions: the set is
ordered, and nothing with a function is lost. -/
structure Ordered (m : TimeManager F) (out : List TimerPtr) : Prop where
  sorted : OrderedSet.Sorted m.key m.timers
  live : ∀ t, m.Live t → t ∈ m.timers ∨ t ∈ out
  apart : ∀ t ∈ out, t ∉ m.timers
  nodup : out.Nodup
  allocated : ∀ t, t ∈ m.timers ∨ t ∈ out → t < m.allocated
  addr_inj : ∀ a b, a ∈ m.timers ∨ a ∈ out → b ∈ m.timers ∨ b ∈ out →
    (m.heap a).addr = (m.heap b).addr → a = b

theorem Held.ordered (held : m.Held out) : m.Ordered out :=
  ⟨held.sorted, fun t => (held.live t).mpr, held.apart, held.nodup,
    fun t there => held.allocated t ((held.live t).mp there),
    fun a b thereA thereB => held.addr_inj a b ((held.live a).mp thereA) ((held.live b).mp thereB)⟩

theorem Ordered.held (ordered : m.Ordered out) (live : ∀ t, t ∈ m.timers ∨ t ∈ out → m.Live t) :
    m.Held out :=
  ⟨ordered.sorted, fun t => ⟨live t, ordered.live t⟩, ordered.apart, ordered.nodup,
    fun t isLive => ordered.allocated t (ordered.live t isLive),
    fun a b liveA liveB => ordered.addr_inj a b (ordered.live a liveA) (ordered.live b liveB)⟩

theorem held_init : (init : TimeManager F).Held [] where
  sorted := List.Pairwise.nil
  live t := iff_of_false (by rintro (member | member) <;> cases member) (fun live => live rfl)
  apart _ member := by cases member
  nodup := List.nodup_nil
  allocated _ live := absurd rfl live
  addr_inj _ _ live := absurd rfl live

theorem Held.mem_iff (held : m.Held []) : t ∈ m.timers ↔ m.Live t := by
  rw [← held.live t, or_iff_left List.not_mem_nil]

/-- Notifying the epoller does not touch the timers. -/
theorem Held.notify (held : m.Held out) (needNotify : Bool) (notified : Nat) :
    { m with needNotify := needNotify, notified := notified }.Held out :=
  ⟨held.sorted, held.live, held.apart, held.nodup, held.allocated, held.addr_inj⟩

/-! ## Taking timers out and putting them back -/

@[simp] theorem heap_modify_same (m : TimeManager F) (t : TimerPtr) (f : Timer F → Timer F) :
    (m.modify t f).heap t = f (m.heap t) := Function.update_self ..

theorem heap_modify_of_ne {u : TimerPtr} (other : u ≠ t) (m : TimeManager F)
    (f : Timer F → Timer F) : (m.modify t f).heap u = m.heap u := Function.update_of_ne other ..

theorem key_modify_of_ne {u : TimerPtr} (other : u ≠ t) (m : TimeManager F)
    (f : Timer F → Timer F) : (m.modify t f).key u = m.key u := by
  rw [key, heap_modify_of_ne other, key]

/-- A member is found and erasing it takes it out. -/
theorem Ordered.find_erase (ordered : m.Ordered []) (member : t ∈ m.timers) :
    ∃ it, m.find t = some it ∧ (m.erase it).Ordered [t] ∧
      ∀ u, u ∈ (m.erase it).timers ∨ u ∈ [t] ↔ u ∈ m.timers := by
  obtain ⟨it, found, here⟩ := ordered.sorted.find_mem m.before_iff member
  have left := OrderedSet.mem_eraseIdx ordered.sorted.nodup here
  have members : ∀ u, u ∈ (m.erase it).timers ∨ u ∈ [t] ↔ u ∈ m.timers := by
    intro u
    change u ∈ m.timers.eraseIdx it ∨ u ∈ [t] ↔ u ∈ m.timers
    rw [left, List.mem_singleton]
    constructor
    · rintro (⟨old, -⟩ | rfl)
      · exact old
      · exact member
    · intro old
      by_cases same : u = t
      · exact Or.inr same
      · exact Or.inl ⟨old, same⟩
  have inside : ∀ u, u ∈ (m.erase it).timers ∨ u ∈ [t] → u ∈ m.timers ∨ u ∈ [] :=
    fun u there => Or.inl ((members u).mp there)
  refine ⟨it, found, ⟨?_, ?_, ?_, List.pairwise_singleton _ _, ?_, ?_⟩, members⟩
  · exact ordered.sorted.sublist (List.eraseIdx_sublist _ _)
  · exact fun u live => (members u).mpr ((ordered.live u live).resolve_right List.not_mem_nil)
  · intro u taken back
    rw [List.mem_singleton] at taken
    exact ((left u).mp back).2 taken
  · exact fun u there => ordered.allocated u (inside u there)
  · exact fun a b thereA thereB => ordered.addr_inj a b (inside a thereA) (inside b thereB)

/-- A timer that is out may change, as long as it stays where it is and keeps a
function. -/
theorem Ordered.modify_out (ordered : m.Ordered out) (taken : t ∈ out) {f : Timer F → Timer F}
    (addr : (f (m.heap t)).addr = (m.heap t).addr)
    (func : (f (m.heap t)).func = (m.heap t).func) : (m.modify t f).Ordered out := by
  have addrs : ∀ u, ((m.modify t f).heap u).addr = (m.heap u).addr := by
    intro u
    by_cases same : u = t
    · subst same
      rw [heap_modify_same, addr]
    · rw [heap_modify_of_ne same]
  refine ⟨?_, fun u live => ?_, ordered.apart, ordered.nodup, ordered.allocated, ?_⟩
  · refine ordered.sorted.congr fun u member => key_modify_of_ne ?_ m f
    rintro rfl
    exact ordered.apart u taken member
  · by_cases same : u = t
    · exact Or.inr (same ▸ taken)
    · rw [Live, heap_modify_of_ne same] at live
      exact ordered.live u live
  · intro a b thereA thereB same
    rw [addrs, addrs] at same
    exact ordered.addr_inj a b thereA thereB same

/-- A timer that is out goes back in, wherever its expiry time now puts it. -/
theorem Ordered.insert (ordered : m.Ordered (t :: out)) :
    (m.insert t).Ordered out ∧ ∀ u, u ∈ (m.insert t).timers ↔ u = t ∨ u ∈ m.timers := by
  have here : t ∈ m.timers ∨ t ∈ t :: out := Or.inr List.mem_cons_self
  have fresh : ∀ u ∈ m.timers, m.key u ≠ m.key t := by
    intro u member same
    have addr : (m.heap u).addr = (m.heap t).addr := congrArg (fun k => (ofLex k).2) same
    have twin := ordered.addr_inj u t (Or.inl member) here addr
    exact ordered.apart t List.mem_cons_self (twin ▸ member)
  have members : ∀ u, u ∈ (m.insert t).timers ↔ u = t ∨ u ∈ m.timers :=
    OrderedSet.mem_insert m.before_iff fresh
  have both : ∀ u, u ∈ (m.insert t).timers ∨ u ∈ out ↔ u ∈ m.timers ∨ u ∈ t :: out := by
    intro u
    rw [members, List.mem_cons, or_assoc, or_left_comm]
  obtain ⟨notOut, rest⟩ := List.nodup_cons.mp ordered.nodup
  refine ⟨⟨ordered.sorted.insert m.before_iff fresh, ?_, ?_, rest, ?_, ?_⟩, members⟩
  · exact fun u live => (both u).mpr (ordered.live u live)
  · intro u taken back
    rcases (members u).mp back with rfl | old
    · exact notOut taken
    · exact ordered.apart u (List.mem_cons_of_mem t taken) old
  · exact fun u there => ordered.allocated u ((both u).mp there)
  · exact fun a b thereA thereB => ordered.addr_inj a b ((both a).mp thereA) ((both b).mp thereB)

/-- A timer that is out loses its function and is done with. -/
theorem Ordered.drop (ordered : m.Ordered (t :: out)) :
    (m.modify t fun timer => { timer with func := none }).Ordered out := by
  have notIn : t ∉ m.timers := ordered.apart t List.mem_cons_self
  obtain ⟨notOut, rest⟩ := List.nodup_cons.mp ordered.nodup
  have other : ∀ u, u ∈ m.timers ∨ u ∈ out → u ≠ t := by
    rintro u there rfl
    exact there.elim notIn notOut
  have before : ∀ u, u ∈ m.timers ∨ u ∈ out → u ∈ m.timers ∨ u ∈ t :: out :=
    fun u there => there.imp_right (List.mem_cons_of_mem t)
  refine ⟨?_, fun u live => ?_, ?_, rest, ?_, ?_⟩
  · exact ordered.sorted.congr fun u member => key_modify_of_ne (other u (Or.inl member)) m _
  · by_cases same : u = t
    · subst same
      rw [Live, heap_modify_same] at live
      exact absurd rfl live
    · rw [Live, heap_modify_of_ne same] at live
      exact (ordered.live u live).imp_right fun taken =>
        (List.mem_cons.mp taken).resolve_left same
  · exact fun u taken => ordered.apart u (List.mem_cons_of_mem t taken)
  · exact fun u there => ordered.allocated u (before u there)
  · intro a b thereA thereB same
    rw [heap_modify_of_ne (other a thereA), heap_modify_of_ne (other b thereB)] at same
    exact ordered.addr_inj a b (before a thereA) (before b thereB) same

theorem Held.find_erase (held : m.Held []) (live : m.Live t) :
    ∃ it, m.find t = some it ∧ (m.erase it).Held [t] := by
  obtain ⟨it, found, taken, members⟩ := held.ordered.find_erase (held.mem_iff.mpr live)
  exact ⟨it, found, taken.held fun u there => held.mem_iff.mp ((members u).mp there)⟩

theorem Held.modify_out (held : m.Held out) (taken : t ∈ out) {f : Timer F → Timer F}
    (addr : (f (m.heap t)).addr = (m.heap t).addr)
    (func : (f (m.heap t)).func = (m.heap t).func) : (m.modify t f).Held out := by
  refine (held.ordered.modify_out taken addr func).held fun u there => ?_
  have live : m.Live u := (held.live u).mp there
  rw [Live] at live ⊢
  by_cases same : u = t
  · subst same
    rwa [heap_modify_same, func]
  · rwa [heap_modify_of_ne same]

theorem Held.insert (held : m.Held (t :: out)) : (m.insert t).Held out := by
  obtain ⟨back, members⟩ := held.ordered.insert
  refine back.held fun u there => (held.live u).mp ?_
  rw [members] at there
  rcases there with (rfl | old) | taken
  · exact Or.inr List.mem_cons_self
  · exact Or.inl old
  · exact Or.inr (List.mem_cons_of_mem t taken)

theorem Held.drop (held : m.Held (t :: out)) :
    (m.modify t fun timer => { timer with func := none }).Held out := by
  refine held.ordered.drop.held fun u there => ?_
  have other : u ≠ t := by
    rintro rfl
    rcases there with member | taken
    · exact held.apart u List.mem_cons_self member
    · exact (List.nodup_cons.mp held.nodup).1 taken
  rw [Live, heap_modify_of_ne other]
  exact (held.live u).mp (there.imp_right (List.mem_cons_of_mem t))

end TimeManager

/-! ## Alarms -/

/-- Timers by what they are for. -/
structure Alarms (F : Type) : Type where
  issued : Nat
  /-- The function still to be handed out. -/
  armed : TimerPtr → Option F
  recursive : TimerPtr → Bool

namespace Alarms

def init : Alarms F := ⟨0, fun _ => none, fun _ => false⟩

/-- A new timer. -/
def add (func : F) (recursive : Bool) (a : Alarms F) : Alarms F where
  issued := a.issued + 1
  armed := Function.update a.armed a.issued (some func)
  recursive := Function.update a.recursive a.issued recursive

def disarm (t : TimerPtr) (a : Alarms F) : Alarms F :=
  { a with armed := Function.update a.armed t none }

/-- The functions of `ts` are handed out; only recursive timers keep theirs. -/
def fire (ts : List TimerPtr) (a : Alarms F) : Alarms F :=
  { a with armed := fun u => if u ∈ ts ∧ a.recursive u = false then none else a.armed u }

@[simp] theorem armed_add_self (func : F) (recursive : Bool) (a : Alarms F) :
    (a.add func recursive).armed a.issued = some func := Function.update_self ..

theorem armed_add_of_ne {t : TimerPtr} {a : Alarms F} (old : t ≠ a.issued) (func : F)
    (recursive : Bool) : (a.add func recursive).armed t = a.armed t :=
  Function.update_of_ne old ..

@[simp] theorem recursive_add_self (func : F) (recursive : Bool) (a : Alarms F) :
    (a.add func recursive).recursive a.issued = recursive := Function.update_self ..

theorem recursive_add_of_ne {t : TimerPtr} {a : Alarms F} (old : t ≠ a.issued) (func : F)
    (recursive : Bool) : (a.add func recursive).recursive t = a.recursive t :=
  Function.update_of_ne old ..

@[simp] theorem armed_disarm_self (t : TimerPtr) (a : Alarms F) : (a.disarm t).armed t = none :=
  Function.update_self ..

theorem armed_disarm_of_ne {t u : TimerPtr} (other : u ≠ t) (a : Alarms F) :
    (a.disarm t).armed u = a.armed u := Function.update_of_ne other ..

theorem fire_nil (a : Alarms F) : a.fire [] = a := by
  simp only [fire, List.not_mem_nil, false_and, if_false]

theorem fire_cons (t : TimerPtr) (ts : List TimerPtr) (a : Alarms F) :
    a.fire (t :: ts) = (a.fire [t]).fire ts := by
  simp only [fire, List.mem_cons, List.not_mem_nil, or_false, mk.injEq, true_and, and_true]
  funext u
  by_cases rest : u ∈ ts ∧ a.recursive u = false
  · rw [if_pos ⟨Or.inr rest.1, rest.2⟩, if_pos rest]
  · rw [if_neg rest]
    refine if_congr ?_ rfl rfl
    exact ⟨fun h => ⟨h.1.resolve_right fun member => rest ⟨member, h.2⟩, h.2⟩,
      fun h => ⟨Or.inl h.1, h.2⟩⟩

theorem fire_once {t : TimerPtr} (a : Alarms F) (once : a.recursive t = false) :
    a.fire [t] = a.disarm t := by
  simp only [fire, disarm, mk.injEq, true_and, and_true]
  funext u
  rw [Function.update_apply]
  refine if_congr ⟨fun h => List.mem_singleton.mp h.1, ?_⟩ rfl rfl
  rintro rfl
  exact ⟨List.mem_singleton_self u, once⟩

theorem fire_recursive {t : TimerPtr} (a : Alarms F) (again : a.recursive t = true) :
    a.fire [t] = a := by
  have keep : ∀ u, ¬(u ∈ [t] ∧ a.recursive u = false) := by
    rintro u ⟨same, once⟩
    rw [List.mem_singleton.mp same, again] at once
    cases once
  simp only [fire, keep, if_false]

theorem armed_fire (ts : List TimerPtr) (a : Alarms F) (u : TimerPtr) :
    (a.fire ts).armed u = if u ∈ ts ∧ a.recursive u = false then none else a.armed u := rfl

theorem armed_fire_of_not_mem {ts : List TimerPtr} {u : TimerPtr} {a : Alarms F}
    (other : u ∉ ts) : (a.fire ts).armed u = a.armed u :=
  if_neg fun both => other both.1

end Alarms

namespace TimeManager

variable {m : TimeManager F} {t : TimerPtr}

def alarms (m : TimeManager F) : Alarms F where
  issued := m.allocated
  armed u := (m.heap u).func
  recursive u := (m.heap u).recursive

theorem alarms_update (m : TimeManager F) (t : TimerPtr) (timer : Timer F) :
    { m with heap := Function.update m.heap t timer }.alarms =
      ⟨m.allocated, Function.update m.alarms.armed t timer.func,
        Function.update m.alarms.recursive t timer.recursive⟩ := by
  simp only [alarms, Alarms.mk.injEq, true_and]
  exact ⟨Function.comp_update (fun timer : Timer F => timer.func) m.heap t timer,
    Function.comp_update (fun timer : Timer F => timer.recursive) m.heap t timer⟩

/-- Changing only when a timer expires changes no alarm. -/
theorem alarms_modify {f : Timer F → Timer F} (func : (f (m.heap t)).func = (m.heap t).func)
    (recursive : (f (m.heap t)).recursive = (m.heap t).recursive) :
    (m.modify t f).alarms = m.alarms := by
  rw [modify, alarms_update, func, recursive]
  simp only [alarms, Function.update_eq_self]

theorem alarms_disarm (m : TimeManager F) (t : TimerPtr) :
    (m.modify t fun timer => { timer with func := none }).alarms = m.alarms.disarm t := by
  rw [modify, alarms_update]
  simp only [alarms, Alarms.disarm, Function.update_eq_self]

/-! ## The operations -/

theorem Ordered.notify (ordered : m.Ordered []) (needNotify : Bool) (notified : Nat) :
    { m with needNotify := needNotify, notified := notified }.Ordered [] :=
  ⟨ordered.sorted, ordered.live, ordered.apart, ordered.nodup, ordered.allocated,
    ordered.addr_inj⟩

/-- `addTimer` puts a new timer into the set; the allocator does not reuse the address of a
timer in the set. -/
theorem Ordered.addTimerOf (ordered : m.Ordered []) {addr : Nat}
    (free : ∀ u ∈ m.timers, (m.heap u).addr ≠ addr)
    (now interval : Int) (func : Option F) (recursive : Bool) :
    ∃ m', addTimerOf addr now interval func recursive m = (m.allocated, m') ∧ m'.Ordered [] ∧
      (∀ u, u ∈ m'.timers ↔ u = m.allocated ∨ u ∈ m.timers) ∧
      m'.heap = Function.update m.heap m.allocated
        { addr := addr, recursive := recursive, interval := interval,
          expire := toInt64 (now + interval), func := func } ∧
      m'.allocated = m.allocated + 1 ∧ m'.errors = m.errors := by
  let made : TimeManager F := { m with
    heap := Function.update m.heap m.allocated
      { addr := addr, recursive := recursive, interval := interval,
        expire := toInt64 (now + interval), func := func }
    allocated := m.allocated + 1 }
  have older : ∀ u ∈ m.timers, u < m.allocated := fun u member =>
    ordered.allocated u (Or.inl member)
  have heap_old : ∀ u, u ≠ m.allocated → made.heap u = m.heap u := fun u old =>
    Function.update_of_ne old ..
  have heap_new : (made.heap m.allocated).addr = addr := by
    simp only [made, Function.update_self]
  have out : made.Ordered [m.allocated] := by
    refine ⟨?_, fun u live => ?_, ?_, List.pairwise_singleton _ _, ?_, ?_⟩
    · refine ordered.sorted.congr fun u member => ?_
      rw [key, heap_old u (Nat.ne_of_lt (older u member)), key]
    · by_cases same : u = m.allocated
      · exact Or.inr (List.mem_singleton.mpr same)
      · rw [Live, heap_old u same] at live
        exact Or.inl ((ordered.live u live).resolve_right List.not_mem_nil)
    · intro u taken member
      rw [List.mem_singleton] at taken
      exact absurd (older u member) (by rw [taken]; exact Nat.lt_irrefl _)
    · rintro u (member | taken)
      · exact Nat.lt_succ_of_lt (older u member)
      · rw [List.mem_singleton] at taken
        rw [taken]
        exact Nat.lt_succ_self _
    · -- the new address is the address of no timer in the set
      have addr_old : ∀ u ∈ m.timers, (made.heap u).addr = (m.heap u).addr := fun u member => by
        rw [heap_old u (Nat.ne_of_lt (older u member))]
      rintro a b (memA | newA) (memB | newB) same
      · rw [addr_old a memA, addr_old b memB] at same
        exact ordered.addr_inj a b (Or.inl memA) (Or.inl memB) same
      · rw [List.mem_singleton] at newB
        rw [newB, addr_old a memA, heap_new] at same
        exact absurd same (free a memA)
      · rw [List.mem_singleton] at newA
        rw [newA, addr_old b memB, heap_new] at same
        exact absurd same.symm (free b memB)
      · rw [List.mem_singleton] at newA newB
        rw [newA, newB]
  obtain ⟨back, members⟩ := out.insert
  rw [TimeManager.addTimerOf]
  simp only
  split
  · exact ⟨_, rfl, back.notify _ _, members, rfl, rfl, rfl⟩
  · exact ⟨_, rfl, back, members, rfl, rfl, rfl⟩

/-- `addTimer` arms a new timer. -/
theorem Held.addTimer (held : m.Held []) {addr : Nat}
    (free : ∀ u ∈ m.timers, (m.heap u).addr ≠ addr)
    (now interval : Int) (func : F) (recursive : Bool) :
    ∃ m', addTimer addr now interval func recursive m = (m.allocated, m') ∧ m'.Held [] ∧
      m'.alarms = m.alarms.add func recursive ∧ m'.errors = m.errors := by
  obtain ⟨m', added, ordered, members, heap, allocated, errors⟩ :=
    held.ordered.addTimerOf free now interval (some func) recursive
  refine ⟨m', added, ordered.held fun u there => ?_, ?_, errors⟩
  · rw [Live, heap]
    by_cases same : u = m.allocated
    · rw [same, Function.update_self]
      exact Option.some_ne_none func
    · rw [Function.update_of_ne same]
      have member := there.resolve_right List.not_mem_nil
      exact held.mem_iff.mp (((members u).mp member).resolve_left same)
  · have same : m'.alarms =
        { m with heap := m'.heap, allocated := m'.allocated }.alarms := rfl
    rw [same, heap, allocated]
    exact alarms_update { m with allocated := m.allocated + 1 } m.allocated _

/-- `cancel` of a timer that is found: emptying the function first does not move the timer
in the order. -/
theorem cancel_found (live : m.Live t) {it : Nat} (found : m.find t = some it) :
    cancel t m = (true, (m.erase it).modify t fun timer => { timer with func := none }) := by
  have keys : ∀ u, (m.modify t fun timer => { timer with func := none }).key u = m.key u := by
    intro u
    by_cases same : u = t
    · subst same
      rw [key, heap_modify_same, key]
    · exact key_modify_of_ne same m _
  have found' := (find_congr keys rfl t).trans found
  rw [TimeManager.cancel, if_pos (Option.isSome_iff_ne_none.mpr live)]
  simp only [found']
  rfl

/-- `cancel` of a timer with a function takes both away. -/
theorem Held.cancel (held : m.Held []) (live : m.Live t) :
    ∃ m', cancel t m = (true, m') ∧ m'.Held [] ∧ m'.alarms = m.alarms.disarm t ∧
      m'.errors = m.errors := by
  obtain ⟨it, found, taken⟩ := held.find_erase live
  exact ⟨_, cancel_found live found, taken.drop, alarms_disarm m t, rfl⟩

theorem cancel_dead (dead : ¬m.Live t) : TimeManager.cancel t m = (false, m) := by
  rw [TimeManager.cancel, if_neg]
  rw [Option.isSome_iff_ne_none]
  exact dead

/-- A timer that is out gets a new expiry time and goes back. -/
theorem Ordered.rearm {out : List TimerPtr} (ordered : m.Ordered (t :: out))
    {f : Timer F → Timer F} (addr : (f (m.heap t)).addr = (m.heap t).addr)
    (func : (f (m.heap t)).func = (m.heap t).func) :
    ((m.modify t f).insert t).Ordered out ∧
      ∀ u, u ∈ ((m.modify t f).insert t).timers ↔ u = t ∨ u ∈ m.timers :=
  (ordered.modify_out List.mem_cons_self addr func).insert

/-- A timer of the set is found, changed and put back. -/
theorem Ordered.move (ordered : m.Ordered []) (member : t ∈ m.timers) {f : Timer F → Timer F}
    (addr : (f (m.heap t)).addr = (m.heap t).addr) (func : (f (m.heap t)).func = (m.heap t).func) :
    ∃ it, m.find t = some it ∧ (((m.erase it).modify t f).insert t).Ordered [] ∧
      (∀ u, u ∈ (((m.erase it).modify t f).insert t).timers ↔ u ∈ m.timers) ∧
      (((m.erase it).modify t f).insert t).heap = Function.update m.heap t (f (m.heap t)) := by
  obtain ⟨it, found, taken, members⟩ := ordered.find_erase member
  obtain ⟨back, inserted⟩ := taken.rearm addr func
  refine ⟨it, found, back, fun u => ?_, rfl⟩
  rw [inserted, ← members, List.mem_singleton]
  exact or_comm

theorem Held.rearm {out : List TimerPtr} (held : m.Held (t :: out)) {f : Timer F → Timer F}
    (addr : (f (m.heap t)).addr = (m.heap t).addr) (func : (f (m.heap t)).func = (m.heap t).func)
    (recursive : (f (m.heap t)).recursive = (m.heap t).recursive) :
    ((m.modify t f).insert t).Held out ∧ ((m.modify t f).insert t).alarms = m.alarms :=
  ⟨(held.modify_out List.mem_cons_self addr func).insert, alarms_modify func recursive⟩

theorem refresh_found (live : m.Live t) {it : Nat} (found : m.find t = some it) (now : Int) :
    refresh t now m = (true, ((m.erase it).modify t fun timer =>
      { timer with expire := toInt64 (now + timer.interval) }).insert t) := by
  rw [TimeManager.refresh, if_neg (by rw [Option.isNone_iff_eq_none]; exact live), found]

/-- `refresh` of a timer with a function only moves it in the order. -/
theorem Held.refresh (held : m.Held []) (live : m.Live t) (now : Int) :
    ∃ m', refresh t now m = (true, m') ∧ m'.Held [] ∧ m'.alarms = m.alarms ∧
      m'.errors = m.errors := by
  obtain ⟨it, found, taken⟩ := held.find_erase live
  obtain ⟨back, alarms⟩ := taken.rearm (f := fun timer =>
    { timer with expire := toInt64 (now + timer.interval) }) rfl rfl rfl
  exact ⟨_, refresh_found live found now, back, alarms, rfl⟩

theorem refresh_dead (dead : ¬m.Live t) (now : Int) :
    TimeManager.refresh t now m = (false, m) := by
  rw [TimeManager.refresh, if_pos]
  rw [Option.isNone_iff_eq_none]
  exact not_not.mp dead

/-- What `reset` on a timer that it finds does. -/
theorem reset_moves (live : m.Live t) {it : Nat} (found : m.find t = some it) {interval : Int}
    {fromNow : Bool} (other : ¬((m.heap t).interval = interval ∧ fromNow = false)) (now : Int) :
    ∃ moved, moved = ((m.erase it).modify t fun timer =>
        { timer with
          interval := interval
          expire := toInt64 ((if fromNow then now
            else toInt64 ((m.heap t).expire - (m.heap t).interval)) + interval) }).insert t ∧
      m.reset t interval fromNow now = (true, if moved.timers.head? = some t
        then { moved with needNotify := true, notified := moved.notified + 1 } else moved) := by
  refine ⟨_, rfl, ?_⟩
  rw [TimeManager.reset, if_neg other,
    if_neg (by rw [Option.isNone_iff_eq_none]; exact live), found]
  simp only [beq_iff_eq]
  rfl

/-- `reset` of a timer that is found takes it out and puts it back with the new interval,
unless it has this interval already. -/
theorem reset_found (live : m.Live t) {it : Nat} (found : m.find t = some it) (interval : Int)
    (fromNow : Bool) (now : Int) :
    reset t interval fromNow now m = (true, m) ∨
      ∃ expire needNotify notified, reset t interval fromNow now m =
        (true, { ((m.erase it).modify t fun timer =>
          { timer with interval := interval, expire := expire }).insert t with
            needNotify := needNotify, notified := notified }) := by
  by_cases same : (m.heap t).interval = interval ∧ fromNow = false
  · exact Or.inl (by rw [TimeManager.reset, if_pos same])
  · obtain ⟨moved, is, done⟩ := reset_moves live found same now
    generalize (if fromNow = true then now
      else toInt64 ((m.heap t).expire - (m.heap t).interval)) = start at is
    subst is
    refine Or.inr ⟨toInt64 (start + interval), ?_⟩
    rw [done]
    split
    · exact ⟨_, _, rfl⟩
    · exact ⟨_, _, rfl⟩

/-- `reset` of a timer with a function only moves it in the order. -/
theorem Held.reset (held : m.Held []) (live : m.Live t) (interval : Int) (fromNow : Bool)
    (now : Int) :
    ∃ m', reset t interval fromNow now m = (true, m') ∧ m'.Held [] ∧ m'.alarms = m.alarms ∧
      m'.errors = m.errors := by
  obtain ⟨it, found, taken⟩ := held.find_erase live
  rcases reset_found live found interval fromNow now with same | ⟨expire, needNotify, notified, moved⟩
  · exact ⟨m, same, held, rfl, rfl⟩
  · obtain ⟨back, alarms⟩ := taken.rearm (f := fun timer =>
      { timer with interval := interval, expire := expire }) rfl rfl rfl
    exact ⟨_, moved, back.notify needNotify notified, alarms, rfl⟩

theorem reset_dead (dead : ¬m.Live t) (interval : Int) (fromNow : Bool) (now : Int) :
    ∃ ret, TimeManager.reset t interval fromNow now m = (ret, m) := by
  rw [TimeManager.reset]
  split
  · exact ⟨true, rfl⟩
  · rw [if_pos (by rw [Option.isNone_iff_eq_none]; exact not_not.mp dead)]
    exact ⟨false, rfl⟩

/-- `refresh`: a timer without a function is left alone, any other is in the set and stays
there with a new time. -/
theorem Ordered.refresh_cases (ordered : m.Ordered []) (t : TimerPtr) (now : Int) :
    ¬m.Live t ∧ m.refresh t now = (false, m) ∨
      m.Live t ∧ t ∈ m.timers ∧ ∃ m', m.refresh t now = (true, m') ∧ m'.Ordered [] ∧
        (∀ u, u ∈ m'.timers ↔ u ∈ m.timers) ∧ m'.notified = m.notified ∧
        m'.heap = Function.update m.heap t
          { m.heap t with expire := toInt64 (now + (m.heap t).interval) } := by
  by_cases live : m.Live t
  · have member := (ordered.live t live).resolve_right List.not_mem_nil
    obtain ⟨it, found, ordered', members, heap⟩ := ordered.move member
      (f := fun timer => { timer with expire := toInt64 (now + timer.interval) }) rfl rfl
    exact Or.inr ⟨live, member, _, refresh_found live found now, ordered', members, rfl, heap⟩
  · exact Or.inl ⟨live, refresh_dead live now⟩

/-- `reset`: nothing is looked at when the interval is not new; otherwise a timer without a
function is left alone, and any other is in the set and stays there with a new time. -/
theorem Ordered.reset_cases (ordered : m.Ordered []) (t : TimerPtr) (interval : Int)
    (fromNow : Bool) (now : Int) :
    ((m.heap t).interval = interval ∧ fromNow = false) ∧
        m.reset t interval fromNow now = (true, m) ∨
      ¬((m.heap t).interval = interval ∧ fromNow = false) ∧
        (¬m.Live t ∧ m.reset t interval fromNow now = (false, m) ∨
          m.Live t ∧ t ∈ m.timers ∧ ∃ m', m.reset t interval fromNow now = (true, m') ∧
            m'.Ordered [] ∧ (∀ u, u ∈ m'.timers ↔ u ∈ m.timers) ∧
            (m'.timers.head? = some t → m.notified < m'.notified) ∧
            m'.heap = Function.update m.heap t { m.heap t with
              interval := interval
              expire := toInt64 ((if fromNow then now
                else toInt64 ((m.heap t).expire - (m.heap t).interval)) + interval) }) := by
  by_cases same : (m.heap t).interval = interval ∧ fromNow = false
  · exact Or.inl ⟨same, by rw [TimeManager.reset, if_pos same]⟩
  refine Or.inr ⟨same, ?_⟩
  by_cases live : m.Live t
  · have member := (ordered.live t live).resolve_right List.not_mem_nil
    obtain ⟨it, found, ordered', members, heap⟩ := ordered.move member
      (f := fun timer => { timer with
        interval := interval
        expire := toInt64 ((if fromNow then now
          else toInt64 ((m.heap t).expire - (m.heap t).interval)) + interval) }) rfl rfl
    obtain ⟨moved, is, done⟩ := reset_moves live found same now
    rw [← is] at ordered' members heap
    have count : moved.notified = m.notified := by rw [is]; rfl
    refine Or.inr ⟨live, member, ?_⟩
    rw [done]
    split
    · exact ⟨_, rfl, ordered'.notify _ _, members, fun _ => by simp only [count]; omega, heap⟩
    · rename_i behind
      exact ⟨_, rfl, ordered', members, fun front => absurd front behind, heap⟩
  · refine Or.inl ⟨live, ?_⟩
    rw [TimeManager.reset, if_neg same, if_pos]
    rw [Option.isNone_iff_eq_none]
    exact not_not.mp live

/-- One expired timer: its function is handed out, and it goes back into the set
or is done with. -/
theorem Held.expireOne {out : List TimerPtr} (held : m.Held (t :: out)) (now : Int) :
    ∃ m', expireOne now t m = ((t, m.alarms.armed t), m') ∧ m'.Held out ∧
      m'.alarms = m.alarms.fire [t] ∧ m'.errors = m.errors := by
  rw [TimeManager.expireOne]
  by_cases again : (m.heap t).recursive = true
  · rw [if_pos again]
    obtain ⟨back, alarms⟩ := held.rearm (f := fun timer =>
      { timer with expire := toInt64 (now + timer.interval) }) rfl rfl rfl
    exact ⟨_, rfl, back, alarms.trans (m.alarms.fire_recursive again).symm, rfl⟩
  · rw [if_neg again]
    refine ⟨_, rfl, held.drop, ?_, rfl⟩
    rw [alarms_disarm]
    exact (m.alarms.fire_once (Bool.eq_false_of_not_eq_true again)).symm

/-- The loop over the expired timers. -/
theorem Held.expireAll {ts : List TimerPtr} (held : m.Held ts) (now : Int) :
    ∃ m', expireAll now ts m = (ts.map fun t => (t, m.alarms.armed t), m') ∧ m'.Held [] ∧
      m'.alarms = m.alarms.fire ts ∧ m'.errors = m.errors := by
  induction ts generalizing m with
  | nil => exact ⟨m, rfl, held, m.alarms.fire_nil.symm, rfl⟩
  | cons t ts ih =>
      obtain ⟨m₁, one, held₁, alarms₁, errors₁⟩ := held.expireOne now
      obtain ⟨m₂, rest, held₂, alarms₂, errors₂⟩ := ih held₁
      refine ⟨m₂, ?_, held₂, ?_, errors₂.trans errors₁⟩
      · rw [TimeManager.expireAll, one]
        simp only [rest, List.map_cons, Prod.mk.injEq, List.cons.injEq, true_and, and_true]
        -- the timers still to come are other timers, so they have kept their functions
        refine List.map_congr_left fun u later => ?_
        have other : u ≠ t := fun same => (List.nodup_cons.mp held.nodup).1 (same ▸ later)
        rw [alarms₁, Alarms.armed_fire_of_not_mem (by rwa [List.mem_singleton])]
      · rw [alarms₂, alarms₁, ← Alarms.fire_cons]

/-- The first timers of the set are taken out. -/
theorem Ordered.take (ordered : m.Ordered []) (it : Nat) :
    ({ m with timers := m.timers.drop it } : TimeManager F).Ordered (m.timers.take it) ∧
      ∀ u, u ∈ m.timers.drop it ∨ u ∈ m.timers.take it ↔ u ∈ m.timers := by
  have parts : m.timers.take it ++ m.timers.drop it = m.timers := List.take_append_drop it _
  have members : ∀ u, u ∈ m.timers.drop it ∨ u ∈ m.timers.take it ↔ u ∈ m.timers := by
    intro u
    rw [or_comm, ← List.mem_append, parts]
  have inside : ∀ u, u ∈ m.timers.drop it ∨ u ∈ m.timers.take it → u ∈ m.timers ∨ u ∈ [] :=
    fun u there => Or.inl ((members u).mp there)
  have nodup := ordered.sorted.nodup
  rw [← parts] at nodup
  obtain ⟨first, -, apart⟩ := List.nodup_append.mp nodup
  refine ⟨⟨ordered.sorted.sublist (List.drop_sublist it _), ?_, ?_, first, ?_, ?_⟩, members⟩
  · exact fun u live => (members u).mpr ((ordered.live u live).resolve_right List.not_mem_nil)
  · exact fun u expired left => apart u expired u left rfl
  · exact fun u there => ordered.allocated u (inside u there)
  · exact fun a b thereA thereB => ordered.addr_inj a b (inside a thereA) (inside b thereB)

/-- `expiredFunctions` hands out the functions of some timers of the set. -/
theorem Held.expiredFunctions (held : m.Held []) (now : Int) (probe : Nat) :
    ∃ ts m', expiredFunctions now probe m = (ts.map fun t => (t, m.alarms.armed t), m') ∧
      m'.Held [] ∧ m'.alarms = m.alarms.fire ts ∧ m'.errors = m.errors ∧ ts.Nodup ∧
      ∀ t ∈ ts, m.Live t := by
  rw [TimeManager.expiredFunctions]
  split
  · exact ⟨[], m, rfl, held, m.alarms.fire_nil.symm, rfl, List.nodup_nil, by simp⟩
  · generalize m.expiredEnd now probe = it
    obtain ⟨taken, members⟩ := held.ordered.take it
    have taken := taken.held fun u there => held.mem_iff.mp ((members u).mp there)
    obtain ⟨m', done, held', alarms, errors⟩ := taken.expireAll now
    exact ⟨_, m', done, held', alarms, errors, taken.nodup,
      fun t expired => held.mem_iff.mp (List.mem_of_mem_take expired)⟩

end TimeManager

end Reyao
