import Reyao.Cxx
import Reyao.EpollerMoves
import Reyao.FdManager
import Reyao.Lib.Run

/-!
# The tables indexed by descriptor (`fdmanager.cc`, `epoller.h`, `epoller.cc`)

`fdcontexts_` and `ioEvents_` are vectors of pointers. A table that is too short for a
descriptor is resized to one and a half times the descriptor and then indexed with it, and
both tables compare their size as an `int`. Here are the tables alone, for every descriptor and
with everything that can go wrong with an index.

* `FdTable`, `EventTable`: the operations, where an index outside the table and a null pointer
  end the program.
* `descriptor_tables_iff`: when exactly a sequence of operations does what it should.
* `addFd_eq`, `addEvent_uses` and the lemmas after it: what `FdManager` and `Epoller` do to
  their tables is one of these operations.
-/

namespace Reyao

open Lib

/-- A descriptor is an `int` that is not negative. -/
abbrev Descriptor : Type := Fin (2 ^ 31)

/-- A vector of pointers. -/
abbrev Slots (α : Type) : Type := List (Option α)

namespace Slots

variable {α : Type} {slots : Slots α} {fd i : Descriptor} {n size : Nat}

/-- `vector::resize(size)`, which may also cut. -/
def resize (size : Nat) (slots : Slots α) : Slots α :=
  slots.take size ++ List.replicate (size - slots.length) none

/-- `(int)size() <= fd`. -/
def Short (slots : Slots α) (fd : Descriptor) : Prop := toInt slots.length ≤ fd.val

instance (slots : Slots α) (fd : Descriptor) : Decidable (slots.Short fd) :=
  inferInstanceAs (Decidable (_ ≤ _))

/-- `fd * 1.5` as a `size_t`. -/
def room (fd : Descriptor) : Nat := fd.val * 3 / 2

/-- The element at an index. -/
def load (fd : Descriptor) (slots : Slots α) : Except Fault (Option α) :=
  if fd.val < slots.length then .ok slots[fd.val]?.join else .error .outOfBounds

/-- Assignment to the element at an index. -/
def store (fd : Descriptor) (slot : Option α) (slots : Slots α) : Except Fault (Slots α) :=
  if fd.val < slots.length then .ok (slots.set fd.val slot) else .error .outOfBounds

theorem room_lt (fd : Descriptor) : room fd < 2 ^ 32 := by
  have := fd.isLt
  rw [room]
  omega

theorem short_iff (small : slots.length < 2 ^ 31) : slots.Short fd ↔ slots.length ≤ fd.val := by
  rw [Short, toInt_of_lt small]
  omega

/-- The size of a table of more than 2^31 slots is a negative `int`. -/
theorem short_of_large (large : 2 ^ 31 ≤ slots.length) (less : slots.length < 2 ^ 32) :
    slots.Short fd := by
  rw [Short, toInt, Int.bmod_def]
  omega

theorem length_resize : (slots.resize size).length = size := by
  rw [resize, List.length_append, List.length_take, List.length_replicate]
  omega

theorem getElem?_resize (below : n < size) : (slots.resize size)[n]? = some slots[n]?.join := by
  rw [resize]
  by_cases old : n < slots.length
  · rw [List.getElem?_append_left (by rw [List.length_take]; omega), List.getElem?_take_of_lt below,
      List.getElem?_eq_getElem old]
    rfl
  · rw [List.getElem?_append_right (by rw [List.length_take]; omega), List.getElem?_replicate,
      if_pos (by rw [List.length_take]; omega), List.getElem?_eq_none (Nat.not_lt.mp old)]
    rfl

end Slots

/-! ## The contexts -/

/-- The calls that change `fdcontexts_`; `ctx` is what the constructor of `FdContext` finds. -/
inductive FdCall : Type
  | addFd (fd : Descriptor) (ctx : FdContext)
  | delFd (fd : Descriptor)

def FdCall.fd : FdCall → Descriptor
  | .addFd fd _ => fd
  | .delFd fd => fd

abbrev FdTable : Type := Slots FdContext

namespace FdTable

/-- `getFdContext(fd)`. -/
def getFdContext (fd : Descriptor) (t : FdTable) : Except Fault (Option FdContext) :=
  if Slots.Short t fd then .ok none else Slots.load fd t

/-- `addFd(fd)`. -/
def addFd (fd : Descriptor) (ctx : FdContext) (t : FdTable) : Except Fault FdTable :=
  Slots.store fd (some ctx) (if Slots.Short t fd then Slots.resize (Slots.room fd) t else t)

/-- `delFd(fd)`. -/
def delFd (fd : Descriptor) (t : FdTable) : Except Fault FdTable :=
  if Slots.Short t fd then .ok t else Slots.store fd none t

def step (t : FdTable) : FdCall → Except Fault FdTable
  | .addFd fd ctx => addFd fd ctx t
  | .delFd fd => delFd fd t

/-- The last `addFd` or `delFd` of a descriptor was `addFd`. -/
def lastAdds (fd : Descriptor) (calls : List FdCall) : Bool :=
  calls.foldl (fun last call =>
    match call with
    | .addFd fd' _ => if fd' = fd then true else last
    | .delFd fd' => if fd' = fd then false else last) false

/-- The call returns, and then every descriptor has a context exactly when its last call was
`addFd`. -/
def Serves (before : List FdCall) (t : FdTable) (call : FdCall) : Prop :=
  ∃ u, t.step call = .ok u ∧ ∀ fd, ∃ ctx, getFdContext fd u = .ok ctx ∧
    (ctx ≠ none ↔ lastAdds fd (before ++ [call]) = true)

/-- The condition on a call: the table has the slot, or its new size is more than the
descriptor and still an `int`. -/
def Fits (t : FdTable) : FdCall → Prop
  | .addFd fd _ => fd.val < t.length ∨ 2 ≤ fd.val ∧ fd.val ≤ 1431655765
  | .delFd _ => True

/-- The table is what the calls say, and not too large for an `int`. -/
structure Holds (calls : List FdCall) (t : FdTable) : Prop where
  small : t.length < 2 ^ 31
  held : ∀ fd : Descriptor, t[fd.val]?.join ≠ none ↔ lastAdds fd calls = true

variable {t u : FdTable} {calls : List FdCall} {call : FdCall} {fd : Descriptor}
  {ctx : FdContext}

theorem lastAdds_snoc (fd : Descriptor) (calls : List FdCall) (call : FdCall) :
    lastAdds fd (calls ++ [call]) = match call with
      | .addFd fd' _ => if fd' = fd then true else lastAdds fd calls
      | .delFd fd' => if fd' = fd then false else lastAdds fd calls := by
  rw [lastAdds, List.foldl_append]
  rfl

theorem lastAdds_of_ne {fd : Descriptor} (other : fd ≠ call.fd) :
    lastAdds fd (calls ++ [call]) = lastAdds fd calls := by
  rw [lastAdds_snoc]
  cases call with
  | addFd fd' ctx => exact if_neg other.symm
  | delFd fd' => exact if_neg other.symm

theorem getFdContext_eq (small : t.length < 2 ^ 31) : getFdContext fd t = .ok t[fd.val]?.join := by
  rw [getFdContext, Slots.load]
  by_cases inside : fd.val < t.length
  · rw [if_neg (by rw [Slots.short_iff small]; omega), if_pos inside]
  · rw [if_pos ((Slots.short_iff small).mpr (Nat.not_lt.mp inside)),
      List.getElem?_eq_none (Nat.not_lt.mp inside)]
    rfl

/-- What is held by a table with the slot of a call assigned to. -/
theorem Holds.set {t' : FdTable} (holds : Holds calls t) (call : FdCall)
    (same : ∀ n : Nat, t'[n]?.join = t[n]?.join) (small : t'.length < 2 ^ 31)
    (inside : call.fd.val < t'.length) {slot : Option FdContext}
    (self : lastAdds call.fd (calls ++ [call]) = slot.isSome) :
    Holds (calls ++ [call]) (t'.set call.fd.val slot) := by
  refine ⟨by rw [List.length_set]; exact small, fun fd' => ?_⟩
  by_cases own : fd' = call.fd
  · subst own
    rw [List.getElem?_set_self inside, self]
    cases slot <;> simp
  · have apart : call.fd.val ≠ fd'.val := fun equal => own (Fin.ext equal.symm)
    rw [List.getElem?_set_ne apart, same, lastAdds_of_ne own]
    exact holds.held fd'

theorem Holds.delFd (holds : Holds calls t) (fd : Descriptor) :
    ∃ u, t.step (.delFd fd) = .ok u ∧ Holds (calls ++ [.delFd fd]) u := by
  have self : lastAdds fd (calls ++ [.delFd fd]) = false := by
    rw [lastAdds_snoc]
    exact if_pos rfl
  change ∃ u, FdTable.delFd fd t = .ok u ∧ _
  rw [FdTable.delFd]
  by_cases inside : fd.val < t.length
  · rw [if_neg (by rw [Slots.short_iff holds.small]; omega), Slots.store, if_pos inside]
    exact ⟨_, rfl, holds.set (.delFd fd) (fun _ => rfl) holds.small inside self⟩
  · rw [if_pos ((Slots.short_iff holds.small).mpr (Nat.not_lt.mp inside))]
    refine ⟨t, rfl, holds.small, fun fd' => ?_⟩
    by_cases own : fd' = fd
    · subst own
      rw [self, List.getElem?_eq_none (Nat.not_lt.mp inside)]
      simp
    · rw [lastAdds_of_ne own]
      exact holds.held fd'

theorem Holds.addFd (holds : Holds calls t) (fits : t.Fits (.addFd fd ctx)) :
    ∃ u, t.step (.addFd fd ctx) = .ok u ∧ Holds (calls ++ [.addFd fd ctx]) u := by
  have self : lastAdds fd (calls ++ [.addFd fd ctx]) = true := by
    rw [lastAdds_snoc]
    exact if_pos rfl
  change ∃ u, FdTable.addFd fd ctx t = .ok u ∧ _
  rw [FdTable.addFd]
  by_cases inside : fd.val < t.length
  · rw [if_neg (by rw [Slots.short_iff holds.small]; omega), Slots.store, if_pos inside]
    exact ⟨_, rfl, holds.set (.addFd fd ctx) (fun _ => rfl) holds.small inside self⟩
  · obtain ⟨low, high⟩ := fits.resolve_left inside
    rw [if_pos ((Slots.short_iff holds.small).mpr (Nat.not_lt.mp inside)), Slots.store]
    have more : fd.val < Slots.room fd := by rw [Slots.room]; omega
    have size : (Slots.resize (Slots.room fd) t).length = Slots.room fd := Slots.length_resize
    have inside' : fd.val < (Slots.resize (Slots.room fd) t).length := by rw [size]; exact more
    rw [if_pos inside']
    refine ⟨_, rfl, holds.set (.addFd fd ctx) (fun n => ?_) ?_ inside' self⟩
    · by_cases below : n < Slots.room fd
      · rw [Slots.getElem?_resize below]
        rfl
      · rw [List.getElem?_eq_none (by rw [size]; omega), List.getElem?_eq_none (by omega)]
    · rw [size, Slots.room]
      omega

theorem Holds.serves (holds : Holds (calls ++ [call]) u) (ran : t.step call = .ok u) :
    Serves calls t call :=
  ⟨u, ran, fun fd => ⟨_, getFdContext_eq holds.small, holds.held fd⟩⟩

/-- What a call that does not fit does to a table that is short: the index is outside the new
table, or the size of the new table is negative. -/
theorem not_serves (small : t.length < 2 ^ 31) (misfit : ¬t.Fits (.addFd fd ctx)) :
    ¬Serves calls t (.addFd fd ctx) := by
  obtain ⟨outside, far⟩ := not_or.mp misfit
  have size : (Slots.resize (Slots.room fd) t).length = Slots.room fd := Slots.length_resize
  have added : t.step (.addFd fd ctx) =
      Slots.store fd (some ctx) (Slots.resize (Slots.room fd) t) := by
    change FdTable.addFd fd ctx t = _
    rw [FdTable.addFd, if_pos ((Slots.short_iff small).mpr (Nat.not_lt.mp outside))]
  rintro ⟨u, ran, served⟩
  rw [added, Slots.store, size] at ran
  split at ran
  · rename_i more
    cases ran
    have large : 2 ^ 31 ≤ Slots.room fd := by
      rw [Slots.room] at more ⊢
      omega
    have short : Slots.Short ((Slots.resize (Slots.room fd) t).set fd.val (some ctx)) fd := by
      refine Slots.short_of_large ?_ ?_
      · rw [List.length_set, size]
        exact large
      · rw [List.length_set, size]
        exact Slots.room_lt fd
    obtain ⟨found, is, iff⟩ := served fd
    rw [getFdContext, if_pos short] at is
    cases is
    rw [lastAdds_snoc] at iff
    exact iff.mpr (if_pos rfl) rfl
  · cases ran

theorem Holds.serves_iff (holds : Holds calls t) : Serves calls t call ↔ t.Fits call := by
  cases call with
  | delFd fd =>
      obtain ⟨u, ran, holds'⟩ := holds.delFd fd
      exact iff_of_true (holds'.serves ran) trivial
  | addFd fd ctx =>
      constructor
      · intro serves
        by_contra misfit
        exact not_serves holds.small misfit serves
      · intro fits
        obtain ⟨u, ran, holds'⟩ := holds.addFd fits
        exact holds'.serves ran

theorem Holds.step (holds : Holds calls t) (fits : t.Fits call) (ran : t.step call = .ok u) :
    Holds (calls ++ [call]) u := by
  have next : ∃ u, t.step call = .ok u ∧ Holds (calls ++ [call]) u := by
    cases call with
    | delFd fd => exact holds.delFd fd
    | addFd fd ctx => exact holds.addFd fits
  obtain ⟨u', ran', holds'⟩ := next
  cases ran.symm.trans ran'
  exact holds'

theorem holds_nil : Holds [] [] := ⟨by decide, fun fd => by simp [lastAdds]⟩

/-- When the calls of a sequence serve. -/
theorem along_serves_iff (calls : List FdCall) :
    Along step [] calls Serves ↔ Along step [] calls fun _ => Fits :=
  along_iff (J := Holds) (P := Serves) holds_nil (fun holds => holds.serves_iff)
    (fun holds fits ran => holds.step fits ran) calls

end FdTable

/-! ## The events -/

variable {W C F : Type}

/-- What a function of `Epoller` writes through its pointer to an event: anything but `fd`. -/
structure Use (W C F : Type) : Type where
  apply : IOEvent W C F → IOEvent W C F
  fd_eq : ∀ event, (apply event).fd = event.fd

/-- The functions of `Epoller` that use an event. -/
inductive EventCall (W C F : Type) : Type
  | addEvent (fd : Descriptor) (use : Use W C F)
  /-- `delEvent`, `handleEvent` and `handleAllEvent`. -/
  | visit (fd : Descriptor) (use : Use W C F)
  /-- `wait`, which has its pointers from the kernel. -/
  | report (n : Nat) (use : Use W C F)

abbrev EventTable (W C F : Type) : Type := Slots (IOEvent W C F)

namespace EventTable

/-- `Epoller::resize(size)`. No descriptor is as large as an index whose `int` is negative. -/
def resize (size : Nat) (t : EventTable W C F) : EventTable W C F :=
  (Slots.resize size t).mapIdx fun i slot =>
    match slot with
    | none => some { fd := i }
    | some event => some event

/-- The table that `addEvent` looks into. -/
def grown (fd : Descriptor) (t : EventTable W C F) : EventTable W C F :=
  if Slots.Short t fd then resize (Slots.room fd) t else t

/-- A write through the pointer at an index. -/
def through (fd : Descriptor) (use : Use W C F) (t : EventTable W C F) :
    Except Fault (EventTable W C F) := do
  match ← Slots.load fd t with
  | none => throw .outOfBounds
  | some event => Slots.store fd (some (use.apply event)) t

def step (t : EventTable W C F) : EventCall W C F → Except Fault (EventTable W C F)
  | .addEvent fd use => through fd use (grown fd t)
  | .visit fd use => if Slots.Short t fd then .ok t else through fd use t
  | .report n use => .ok (t.modify n (Option.map use.apply))

/-- `addEvent` returns; the slot that it uses has an event with the descriptor in `fd`; and the
events of other descriptors are what they were. -/
def Serves (t : EventTable W C F) : EventCall W C F → Prop
  | .addEvent fd use =>
      (∃ event, (grown fd t)[fd.val]? = some (some event) ∧ event.fd = fd.val) ∧
        ∃ u, t.step (.addEvent fd use) = .ok u ∧
          ∀ i : Descriptor, i ≠ fd → ∀ event, t[i.val]? = some (some event) →
            u[i.val]? = some (some event)
  | _ => True

/-- The condition on a call: the table has the slot or the descriptor is at least 2, and a
table whose size is a negative `int` is not cut below the descriptors. -/
def Fits (t : EventTable W C F) : EventCall W C F → Prop
  | .addEvent fd _ =>
      (fd.val < t.length ∨ 2 ≤ fd.val) ∧ (t.length < 2 ^ 31 ∨ 1431655766 ≤ fd.val)
  | _ => True

/-- Every slot has an event with the index in `fd`. -/
structure Filled (t : EventTable W C F) : Prop where
  less : t.length < 2 ^ 32
  event : ∀ n < t.length, ∃ event, t[n]? = some (some event) ∧ event.fd = n

variable {t u : EventTable W C F} {call : EventCall W C F} {fd : Descriptor} {use : Use W C F}
  {event : IOEvent W C F} {n size : Nat}

theorem length_resize : (resize size t).length = size := by
  rw [resize, List.length_mapIdx, Slots.length_resize]

theorem getElem?_resize (below : n < size) :
    (resize size t)[n]? = some (some (t[n]?.join.getD { fd := n })) := by
  rw [resize, List.getElem?_mapIdx, Slots.getElem?_resize below]
  cases t[n]?.join <;> rfl

theorem grown_short (short : Slots.Short t fd) : grown fd t = resize (Slots.room fd) t :=
  if_pos short

theorem visit_short (short : Slots.Short t fd) : t.step (.visit fd use) = .ok t := by
  rw [step, if_pos short]

theorem visit_long (long : ¬Slots.Short t fd) : t.step (.visit fd use) = through fd use t := by
  rw [step, if_neg long]

theorem through_ok (there : t[fd.val]? = some (some event)) :
    through fd use t = .ok (t.set fd.val (some (use.apply event))) := by
  have inside := (List.getElem?_eq_some_iff.mp there).1
  rw [through, Slots.load, if_pos inside, there]
  change Slots.store fd (some (use.apply event)) t = _
  rw [Slots.store, if_pos inside]

theorem through_outside (outside : t.length ≤ fd.val) :
    through fd use t = .error .outOfBounds := by
  rw [through, Slots.load, if_neg (Nat.not_lt.mpr outside)]
  rfl

theorem Filled.at (filled : t.Filled) (inside : fd.val < t.length) :
    ∃ event, t[fd.val]? = some (some event) ∧ event.fd = fd.val :=
  filled.event fd.val inside

theorem Filled.grown (filled : t.Filled) (fd : Descriptor) : (grown fd t).Filled := by
  rw [EventTable.grown]
  split
  · refine ⟨by rw [length_resize]; exact Slots.room_lt fd, fun n below => ?_⟩
    rw [length_resize] at below
    refine ⟨_, getElem?_resize below, ?_⟩
    by_cases old : n < t.length
    · obtain ⟨event, there, own⟩ := filled.event n old
      rw [there]
      exact own
    · rw [List.getElem?_eq_none (Nat.not_lt.mp old)]
      rfl
  · exact filled

/-- A write through a pointer leaves the slots filled. -/
theorem Filled.modify (filled : t.Filled) (n : Nat) (use : Use W C F) :
    EventTable.Filled (t.modify n (Option.map use.apply)) := by
  refine ⟨by rw [List.length_modify]; exact filled.less, fun m below => ?_⟩
  rw [List.length_modify] at below
  obtain ⟨event, there, own⟩ := filled.event m below
  rw [List.getElem?_modify, there]
  by_cases same : n = m
  · exact ⟨use.apply event, congrArg some (if_pos same), (use.fd_eq event).trans own⟩
  · exact ⟨event, congrArg some (if_neg same), own⟩

theorem Filled.through (filled : t.Filled) (ran : through fd use t = .ok u) : u.Filled := by
  by_cases inside : fd.val < t.length
  · obtain ⟨event, there, own⟩ := filled.at inside
    rw [through_ok there] at ran
    cases ran
    refine ⟨by rw [List.length_set]; exact filled.less, fun n below => ?_⟩
    rw [List.length_set] at below
    by_cases same : fd.val = n
    · subst same
      exact ⟨_, List.getElem?_set_self inside, (use.fd_eq event).trans own⟩
    · rw [List.getElem?_set_ne same]
      exact filled.event n below
  · rw [through_outside (Nat.not_lt.mp inside)] at ran
    cases ran

theorem Filled.step (filled : t.Filled) (ran : t.step call = .ok u) : u.Filled := by
  cases call with
  | addEvent fd use => exact (filled.grown fd).through ran
  | visit fd use =>
      by_cases short : Slots.Short t fd
      · rw [visit_short short] at ran
        cases ran
        exact filled
      · rw [visit_long short] at ran
        exact filled.through ran
  | report n use =>
      cases ran
      exact filled.modify n use

/-- `addEvent` serves when the table that it looks into has the slot and keeps the events of
descriptors. -/
theorem Filled.serves (filled : t.Filled) (inside : fd.val < (EventTable.grown fd t).length)
    (kept : ∀ i : Descriptor, i.val < t.length → (EventTable.grown fd t)[i.val]? = t[i.val]?) :
    t.Serves (.addEvent fd use) := by
  obtain ⟨event, there, own⟩ := (filled.grown fd).at inside
  refine ⟨⟨event, there, own⟩, _, through_ok there, fun i other event' before => ?_⟩
  have apart : fd.val ≠ i.val := fun equal => other (Fin.ext equal.symm)
  rw [List.getElem?_set_ne apart, kept i (List.getElem?_eq_some_iff.mp before).1]
  exact before

/-- A table that is resized keeps the events below its new size. -/
theorem Filled.resize_kept (filled : t.Filled) (below : n < size) (old : n < t.length) :
    (resize size t)[n]? = t[n]? := by
  obtain ⟨event, there, -⟩ := filled.event n old
  rw [getElem?_resize below, there]
  rfl

theorem Filled.serves_iff (filled : t.Filled) : t.Serves call ↔ t.Fits call := by
  cases call with
  | visit fd use => exact Iff.rfl
  | report n use => exact Iff.rfl
  | addEvent fd use =>
      by_cases short : Slots.Short t fd
      · have looks := grown_short short
        have size : (EventTable.grown fd t).length = Slots.room fd := by rw [looks, length_resize]
        constructor
        · rintro ⟨⟨event, there, -⟩, u, ran, others⟩
          have more : fd.val < Slots.room fd := by
            rw [← size]
            exact (List.getElem?_eq_some_iff.mp there).1
          rw [Slots.room] at more
          refine ⟨by omega, ?_⟩
          by_contra cut
          -- the first slot that is cut off is that of a descriptor
          have low : Slots.room fd < 2 ^ 31 := by
            rw [Slots.room]
            omega
          have old : Slots.room fd < t.length := by omega
          obtain ⟨event', before, -⟩ := filled.event _ old
          change EventTable.through fd use (EventTable.grown fd t) = .ok u at ran
          rw [through_ok there] at ran
          obtain rfl := Except.ok.inj ran
          have after := others ⟨Slots.room fd, low⟩ (fun same => by
            have equal : Slots.room fd = fd.val := congrArg Fin.val same
            rw [Slots.room] at equal
            omega) event' before
          have inside := (List.getElem?_eq_some_iff.mp after).1
          rw [List.length_set, size] at inside
          exact absurd inside (lt_irrefl _)
        · rintro ⟨low, high⟩
          have small : t.length < 2 ^ 31 → t.length ≤ fd.val :=
            fun small => (Slots.short_iff small).mp short
          have bound := fd.isLt
          have more : fd.val < Slots.room fd := by
            rw [Slots.room]
            omega
          refine filled.serves (by rw [size]; exact more) fun i old => ?_
          rw [looks]
          refine filled.resize_kept ?_ old
          have := i.isLt
          rw [Slots.room]
          omega
      · have small : t.length < 2 ^ 31 := by
          by_contra large
          exact short (Slots.short_of_large (Nat.not_lt.mp large) filled.less)
        have inside : fd.val < t.length := by
          rw [Slots.short_iff small] at short
          omega
        have looks : EventTable.grown fd t = t := if_neg short
        refine iff_of_true (filled.serves (by rw [looks]; exact inside) fun i _ => by rw [looks]) ?_
        exact ⟨Or.inl inside, Or.inl small⟩

theorem filled_nil : Filled ([] : EventTable W C F) :=
  ⟨Nat.two_pow_pos 32, fun n below => absurd below (Nat.not_lt_zero n)⟩

/-- When the calls of a sequence serve. -/
theorem along_serves_iff (calls : List (EventCall W C F)) :
    Along step [] calls (fun _ => Serves) ↔ Along step [] calls fun _ => Fits :=
  along_iff (J := fun _ => Filled) (P := fun _ => Serves) filled_nil
    (fun filled => filled.serves_iff) (fun filled _ ran => filled.step ran) calls

end EventTable

/-! ## The tables of `FdManager` and `Epoller` -/

theorem getFdContext_table (m : FdManager) (fd : Descriptor) :
    FdTable.getFdContext fd m.fdcontexts = .ok (m.getFdContext fd.val) := by
  rw [FdTable.getFdContext_eq m.small, FdManager.getFdContext_eq]

/-- `addFd` of `FdManager`, for the descriptors that the kernel gives. -/
theorem addFd_eq (m : FdManager) {fd : Descriptor} (low : fd.val ≤ maxFd) (ctx : FdContext) :
    FdTable.addFd fd ctx m.fdcontexts =
      ((m.addFd fd.val ctx).map FdManager.fdcontexts).elim (.error .outOfBounds) .ok := by
  have table : (if Slots.Short m.fdcontexts fd then Slots.resize (Slots.room fd) m.fdcontexts
      else m.fdcontexts) = m.resize fd.val := by
    have short : Slots.Short m.fdcontexts fd ↔ m.Short fd.val := Iff.rfl
    unfold FdManager.resize
    by_cases outside : m.Short fd.val
    · rw [if_pos (short.mpr outside), if_pos outside, Slots.resize, Slots.room]
    · rw [if_neg fun is => outside (short.mp is), if_neg outside]
  rw [FdTable.addFd, table, Slots.store, FdManager.addFd]
  by_cases inside : fd.val < (m.resize fd.val).length
  · rw [if_pos inside, dif_pos ⟨low, inside⟩, Option.map_some, Option.elim_some]
  · rw [if_neg inside, dif_neg fun both => inside both.2, Option.map_none, Option.elim_none]

theorem delFd_eq (m : FdManager) (fd : Descriptor) :
    FdTable.delFd fd m.fdcontexts = .ok (m.delFd fd.val).fdcontexts := by
  rw [FdTable.delFd, FdManager.delFd, Slots.store]
  have short : Slots.Short m.fdcontexts fd ↔ m.Short fd.val := Iff.rfl
  by_cases outside : m.Short fd.val
  · rw [if_pos (short.mpr outside), if_pos outside]
  · rw [if_neg fun is => outside (short.mp is), if_neg outside,
      if_pos (Nat.not_le.mp fun is => outside (FdManager.short_iff.mpr is))]

namespace EventTable

/-- One list of events is another with a write through the pointer at an index. -/
def Uses (n : Nat) (events events' : List (IOEvent W C F)) : Prop :=
  ∃ use : Use W C F, events' = events.modify n use.apply

variable {events events' events'' : List (IOEvent W C F)} {p p' : Epoller W C F}
  {granted : CtlOp → Nat → Bool} {type : EventType} {woken : List (W × Task C F)}

theorem Uses.refl (n : Nat) (events : List (IOEvent W C F)) : Uses n events events :=
  ⟨⟨id, fun _ => rfl⟩, (List.modify_id n events).symm⟩

theorem Uses.trans (first : Uses n events events') (second : Uses n events' events'') :
    Uses n events events'' := by
  obtain ⟨use, rfl⟩ := first
  obtain ⟨use', rfl⟩ := second
  refine ⟨⟨use'.apply ∘ use.apply, fun event => ?_⟩, List.modify_modify_eq ..⟩
  exact (use'.fd_eq _).trans (use.fd_eq event)

theorem uses_set {event event' : IOEvent W C F} (there : events[n]? = some event)
    (same : event'.fd = event.fd) : Uses n events (events.set n event') := by
  refine ⟨⟨fun event => { event' with fd := event.fd }, fun _ => rfl⟩, ?_⟩
  rw [List.modify_eq_set_getElem?, there]
  change _ = events.set n { event' with fd := event.fd }
  rw [← same]

theorem fd_setEventCtx (type : EventType) (ctx : EventCtx W C F) (event : IOEvent W C F) :
    (event.setEventCtx type ctx).fd = event.fd := by
  cases type <;> rfl

theorem fd_register (worker : W) (waiter : Task C F) (type : EventType) (event : IOEvent W C F) :
    (event.register worker waiter type).fd = event.fd := by
  cases waiter <;> exact fd_setEventCtx ..

theorem fd_triggleEvent {event event' : IOEvent W C F}
    (ran : event.triggleEvent type = some (woken, event')) : event'.fd = event.fd := by
  unfold IOEvent.triggleEvent at ran
  split at ran
  · cases ran
  · obtain ⟨worker, -, ran⟩ := Option.bind_eq_some_iff.mp ran
    split at ran
    · cases ran
      exact fd_setEventCtx ..
    · cases ran
      exact fd_setEventCtx ..

theorem triggle_uses (ran : p.triggle n type = some (woken, p')) :
    Uses n p.ioEvents p'.ioEvents := by
  obtain ⟨event, there, ran⟩ := Option.bind_eq_some_iff.mp ran
  obtain ⟨⟨first, event'⟩, triggled, ran⟩ := Option.bind_eq_some_iff.mp ran
  cases ran
  exact uses_set there (fd_triggleEvent triggled)

theorem triggleIf_uses {types : EpollMask} (ran : p.triggleIf types n type = some (woken, p')) :
    Uses n p.ioEvents p'.ioEvents := by
  unfold Epoller.triggleIf at ran
  split at ran
  · exact triggle_uses ran
  · cases ran
    exact .refl ..

theorem triggleBoth_uses {types : EpollMask} (ran : p.triggleBoth types n = some (woken, p')) :
    Uses n p.ioEvents p'.ioEvents := by
  obtain ⟨⟨first, p₁⟩, readable, ran⟩ := Option.bind_eq_some_iff.mp ran
  obtain ⟨⟨second, p₂⟩, writable, ran⟩ := Option.bind_eq_some_iff.mp ran
  cases ran
  exact (triggleIf_uses readable).trans (triggleIf_uses writable)

theorem through_map (inside : fd.val < events.length) (uses : Uses fd.val events events') :
    ∃ use, through fd use (events.map some) = .ok (events'.map some) := by
  obtain ⟨use, rfl⟩ := uses
  have there := List.getElem?_eq_getElem inside
  refine ⟨use, ?_⟩
  rw [through_ok (by rw [List.getElem?_map, there]; rfl), List.modify_eq_set_getElem?, there]
  exact congrArg Except.ok (List.map_set (f := some)).symm

theorem short_map (p : Epoller W C F) (fd : Descriptor) :
    Slots.Short (p.ioEvents.map some) fd ↔ p.Short fd.val := by
  rw [Slots.Short, List.length_map, Epoller.Short]

theorem resize_map (p : Epoller W C F) (size : Nat) :
    resize size (p.ioEvents.map some) = (p.resize size).ioEvents.map some := by
  refine List.ext_getElem? fun n => ?_
  rw [List.getElem?_map, Epoller.getElem?_resize]
  split
  · rename_i below
    rw [getElem?_resize below, List.getElem?_map]
    cases p.ioEvents[n]? <;> rfl
  · rename_i beyond
    exact List.getElem?_eq_none (by rw [length_resize]; omega)

theorem grown_map (p : Epoller W C F) (fd : Descriptor) :
    grown fd (p.ioEvents.map some) = (p.grown fd.val).ioEvents.map some := by
  have short := short_map p fd
  unfold grown Epoller.grown
  by_cases outside : p.Short fd.val
  · rw [if_pos (short.mpr outside), if_pos outside]
    exact resize_map p _
  · rw [if_neg (fun is => outside (short.mp is)), if_neg outside]

/-- `addEvent` of `Epoller`. -/
theorem addEvent_uses {worker : W} {waiter : Task C F} {added : Bool}
    (ran : p.addEvent granted worker waiter fd.val type = some (added, p')) :
    ∃ use, step (p.ioEvents.map some) (.addEvent fd use) = .ok (p'.ioEvents.map some) := by
  change ∃ use, through fd use (grown fd (p.ioEvents.map some)) = _
  rw [grown_map]
  have grow : (if p.Short fd.val then p.resize (fd.val * 3 / 2) else p) = p.grown fd.val := rfl
  unfold Epoller.addEvent at ran
  rw [grow] at ran
  generalize p.grown fd.val = p₀ at ran ⊢
  obtain ⟨event, there, ran⟩ := Option.bind_eq_some_iff.mp ran
  refine through_map (List.getElem?_eq_some_iff.mp there).1 ?_
  simp only at ran
  generalize (if event.types ≠ 0 then CtlOp.EPOLL_CTL_MOD else .EPOLL_CTL_ADD) = op at ran
  split at ran
  · cases ran
    exact .refl ..
  split at ran
  · cases ran
    exact .refl ..
  split at ran
  · cases ran
  · cases ran
    exact uses_set there (fd_register ..)

/-- A function that looks at the size of the table first. -/
theorem visit_map (short : p.Short fd.val → events' = p.ioEvents)
    (uses : ∀ event, ¬p.Short fd.val → p.ioEvents[fd.val]? = some event →
      Uses fd.val p.ioEvents events') :
    ∃ use, step (p.ioEvents.map some) (.visit fd use) = .ok (events'.map some) := by
  by_cases is : p.Short fd.val
  · rw [short is]
    exact ⟨⟨id, fun _ => rfl⟩, visit_short ((short_map p fd).mpr is)⟩
  · have inside := Epoller.lt_length_of_not_short is
    obtain ⟨use, ran⟩ := through_map inside (uses _ is (List.getElem?_eq_getElem inside))
    exact ⟨use, (visit_long fun other => is ((short_map p fd).mp other)).trans ran⟩

/-- `delEvent` of `Epoller`. -/
theorem delEvent_uses {deleted : Bool}
    (ran : p.delEvent granted fd.val type = (deleted, p')) :
    ∃ use, step (p.ioEvents.map some) (.visit fd use) = .ok (p'.ioEvents.map some) := by
  unfold Epoller.delEvent at ran
  refine visit_map (fun short => ?_) fun event long there => ?_
  · rw [if_pos short] at ran
    cases ran
    rfl
  · rw [if_neg long, there] at ran
    simp only at ran
    split at ran
    · cases ran
      exact .refl ..
    split at ran
    · cases ran
      exact .refl ..
    · cases ran
      exact uses_set there (fd_setEventCtx ..)

/-- `handleEvent` of `Epoller`. -/
theorem handleEvent_uses {handled : Bool}
    (ran : p.handleEvent granted fd.val type = some (handled, woken, p')) :
    ∃ use, step (p.ioEvents.map some) (.visit fd use) = .ok (p'.ioEvents.map some) := by
  unfold Epoller.handleEvent at ran
  refine visit_map (fun short => ?_) fun event long there => ?_
  · rw [if_pos short] at ran
    cases ran
    rfl
  · rw [if_neg long, there] at ran
    simp only at ran
    split at ran
    · cases ran
      exact .refl ..
    split at ran
    · cases ran
      exact .refl ..
    · obtain ⟨⟨first, p₁⟩, triggled, ran⟩ := Option.bind_eq_some_iff.mp ran
      cases ran
      have used := triggle_uses triggled
      exact used

/-- `handleAllEvent` of `Epoller`. -/
theorem handleAllEvent_uses {handled : Bool}
    (ran : p.handleAllEvent granted fd.val = some (handled, woken, p')) :
    ∃ use, step (p.ioEvents.map some) (.visit fd use) = .ok (p'.ioEvents.map some) := by
  unfold Epoller.handleAllEvent at ran
  refine visit_map (fun short => ?_) fun event long there => ?_
  · rw [if_pos short] at ran
    cases ran
    rfl
  · rw [if_neg long, there] at ran
    simp only at ran
    split at ran
    · cases ran
      exact .refl ..
    split at ran
    · cases ran
      exact .refl ..
    · obtain ⟨⟨first, p₁⟩, triggled, ran⟩ := Option.bind_eq_some_iff.mp ran
      cases ran
      have used := triggleBoth_uses triggled
      exact used

/-- What `wait` does with a report. -/
theorem handleReport_uses {reported : EpollMask}
    (ran : p.handleReport granted n reported = some (woken, p')) :
    ∃ use, step (p.ioEvents.map some) (.report n use) = .ok (p'.ioEvents.map some) := by
  obtain ⟨event, there, ran⟩ := Option.bind_eq_some_iff.mp ran
  have uses : Uses n p.ioEvents p'.ioEvents := by
    simp only at ran
    split at ran
    · cases ran
      exact .refl ..
    · have used := triggleBoth_uses ran
      exact used
  obtain ⟨use, same⟩ := uses
  refine ⟨use, congrArg Except.ok ?_⟩
  rw [same, List.modify_eq_set_getElem?, List.modify_eq_set_getElem?, List.getElem?_map, there]
  exact (List.map_set (f := some)).symm

end EventTable

/-- **When the tables serve.** For every sequence of calls: `addFd` and `delFd` stay inside
`fdcontexts_` and a descriptor has a context exactly when its last call was `addFd`, if and only
if every `addFd` finds its slot in the table or is of a descriptor from 2 to 1431655765; and
`addEvent` stays inside `ioEvents_`, uses an event with the descriptor in it and leaves the
events of other descriptors alone, if and only if it finds its slot in the table or is of a
descriptor from 2 on, and does not cut a table that has outgrown `int`. -/
theorem descriptor_tables_iff :
    (∀ calls, Along FdTable.step [] calls FdTable.Serves ↔
      Along FdTable.step [] calls fun _ => FdTable.Fits) ∧
    ∀ calls : List (EventCall W C F),
      Along EventTable.step [] calls (fun _ => EventTable.Serves) ↔
        Along EventTable.step [] calls fun _ => EventTable.Fits :=
  ⟨FdTable.along_serves_iff, EventTable.along_serves_iff⟩

/-- The first call on an empty table is outside of it for the descriptors 0 and 1. -/
theorem not_descriptor_tables :
    FdTable.addFd 0 { isSock := true } [] = .error .outOfBounds ∧
      EventTable.step ([] : EventTable Unit Unit Unit) (.addEvent 1 ⟨id, fun _ => rfl⟩) =
        .error .outOfBounds ∧
      (¬∀ calls, Along FdTable.step [] calls FdTable.Serves) ∧
      ¬∀ calls : List (EventCall Unit Unit Unit),
        Along EventTable.step [] calls fun _ => EventTable.Serves := by
  have faults : EventTable.step ([] : EventTable Unit Unit Unit)
      (.addEvent 1 ⟨id, fun _ => rfl⟩) = .error .outOfBounds := by
    exact EventTable.through_outside (by decide)
  refine ⟨by decide, faults, fun serves => ?_, fun serves => ?_⟩
  · obtain ⟨u, ran, -⟩ := serves [.addFd 0 { isSock := true }] [] _ [] List.prefix_rfl rfl
    cases ran
  · obtain ⟨-, u, ran, -⟩ :=
      serves [.addEvent 1 ⟨id, fun _ => rfl⟩] [] _ [] List.prefix_rfl rfl
    rw [faults] at ran
    cases ran

end Reyao
