import Reyao.Epoller

/-!
# Contexts of descriptors (`fdmanager.h`, `fdmanager.cc`)

`FdManager` keeps the context of every descriptor that a hooked `socket` or
`accept` has returned and no hooked `close` has taken. It compares the size of its table with
a descriptor as an `int`. The descriptors that the kernel gives are so small that the size is
an `int`; `DescriptorTables` says what becomes of the table with larger ones.
-/

namespace Reyao

/-- The context of a descriptor; `init` sets `isSysNonblock_` for a socket, and nothing
changes it later. -/
structure FdContext : Type where
  isSock : Bool
  isSysNonblock : Bool := isSock
  isUserNonblock : Bool := false
  close : Bool := false
  recvTimeout : Int := -1
  sendTimeout : Int := -1
  deriving DecidableEq

namespace FdContext

/-- `getTimeout(type)`: a call that waits for `EPOLLIN` asks for `SO_RCVTIMEO`, one
that waits for `EPOLLOUT` for `SO_SNDTIMEO`. -/
def getTimeout (type : EventType) (ctx : FdContext) : Int :=
  match type with
  | .EPOLLIN => ctx.recvTimeout
  | .EPOLLOUT => ctx.sendTimeout

def setTimeout (type : EventType) (timeout : Int) (ctx : FdContext) : FdContext :=
  match type with
  | .EPOLLIN => { ctx with recvTimeout := timeout }
  | .EPOLLOUT => { ctx with sendTimeout := timeout }

end FdContext

/-- The kernel gives no larger descriptor: its limit of open files is lower. With this one
the size of a table is an `int` yet, 1431655765 * 3 / 2 < 2^31. -/
def maxFd : Nat := 1431655765

theorem low_of_length {fdcontexts : List (Option FdContext)}
    (few : fdcontexts.length ≤ maxFd + 1) (fd : Nat) (there : fdcontexts[fd]?.join ≠ none) :
    fd ≤ maxFd := by
  have inside : fd < fdcontexts.length := by
    refine Nat.lt_of_not_le fun outside => there ?_
    rw [List.getElem?_eq_none outside]
    rfl
  exact Nat.le_of_lt_succ (inside.trans_le few)

/-- The table has contexts for descriptors only, and its size is an `int`. -/
structure FdManager : Type where
  fdcontexts : List (Option FdContext) := []
  small : fdcontexts.length < 2 ^ 31 := by decide
  low : ∀ fd, fdcontexts[fd]?.join ≠ none → fd ≤ maxFd := by
    exact low_of_length (by decide)

namespace FdManager

theorem small_nil : ([] : List (Option FdContext)).length < 2 ^ 31 := Nat.two_pow_pos 31

theorem low_nil (fd : Nat) (there : ([] : List (Option FdContext))[fd]?.join ≠ none) :
    fd ≤ maxFd := low_of_length (Nat.zero_le _) fd there

/-- `FdManager()`. -/
def new : FdManager where
  small := small_nil
  low := low_nil

/-- `(int)fdcontexts_.size() <= fd`. -/
def Short (fd : Nat) (m : FdManager) : Prop := toInt m.fdcontexts.length ≤ fd

instance (fd : Nat) (m : FdManager) : Decidable (m.Short fd) :=
  decidableToIntLe m.fdcontexts.length fd

def getFdContext (fd : Nat) (m : FdManager) : Option FdContext :=
  if m.Short fd then none else m.fdcontexts[fd]?.join

/-- The table with room made for a descriptor. -/
def resize (fd : Nat) (m : FdManager) : List (Option FdContext) :=
  if m.Short fd then
    m.fdcontexts.take (fd * 3 / 2) ++ List.replicate (fd * 3 / 2 - m.fdcontexts.length) none
  else m.fdcontexts

variable {m m' : FdManager} {fd fd' : Nat} {ctx : FdContext}

theorem short_iff : m.Short fd ↔ m.fdcontexts.length ≤ fd := by
  rw [Short, toInt_of_lt m.small]
  exact Int.ofNat_le

theorem getFdContext_eq : m.getFdContext fd = m.fdcontexts[fd]?.join := by
  rw [getFdContext]
  split
  · rename_i short
    rw [List.getElem?_eq_none (short_iff.mp short)]
    rfl
  · rfl

theorem join_resize : (m.resize fd)[fd']?.join = m.fdcontexts[fd']?.join := by
  rw [resize]
  split
  · rename_i short
    have outside := short_iff.mp short
    rw [List.take_of_length_le (by omega)]
    by_cases old : fd' < m.fdcontexts.length
    · rw [List.getElem?_append_left old]
    · rw [List.getElem?_append_right (Nat.not_lt.mp old), List.getElem?_replicate,
        List.getElem?_eq_none (Nat.not_lt.mp old)]
      split <;> rfl
  · rfl

theorem length_resize_lt (bound : fd ≤ maxFd) : (m.resize fd).length < 2 ^ 31 := by
  rw [maxFd] at bound
  rw [resize]
  split
  · rw [List.length_append, List.length_take, List.length_replicate]
    omega
  · exact m.small

theorem join_set {l : List (Option FdContext)} {slot : Option FdContext}
    (there : (l.set fd slot)[fd']?.join ≠ none) : fd' = fd ∨ l[fd']?.join ≠ none := by
  rw [List.getElem?_set] at there
  split at there
  · rename_i same
    exact Or.inl same.symm
  · exact Or.inr there

/-- `addFd(fd)`, where `ctx` is the new context; there is no result when the index
is outside the table that was made for it, and none for a descriptor that the kernel does not
give. -/
def addFd (fd : Nat) (ctx : FdContext) (m : FdManager) : Option FdManager :=
  if h : fd ≤ maxFd ∧ fd < (m.resize fd).length then
    some {
      fdcontexts := (m.resize fd).set fd (some ctx)
      small := by
        rw [List.length_set]
        exact length_resize_lt h.1
      low := by
        intro fd' there
        rcases join_set there with rfl | there
        · exact h.1
        · rw [join_resize] at there
          exact m.low fd' there }
  else none

/-- `delFd(fd)`. -/
def delFd (fd : Nat) (m : FdManager) : FdManager :=
  if m.Short fd then m
  else {
    fdcontexts := m.fdcontexts.set fd none
    small := by
      rw [List.length_set]
      exact m.small
    low := by
      intro fd' there
      rw [List.getElem?_set] at there
      split at there
      · split at there <;> exact absurd rfl there
      · exact m.low fd' there }

theorem join_modify (f : FdContext → FdContext) :
    (m.fdcontexts.modify fd (Option.map f))[fd']?.join =
      if fd = fd' then m.fdcontexts[fd']?.join.map f else m.fdcontexts[fd']?.join := by
  rw [List.getElem?_modify]
  cases m.fdcontexts[fd']? with
  | none => split <;> rfl
  | some ctx => split <;> rfl

/-- A change of the context of a descriptor that has one. -/
def modify (fd : Nat) (f : FdContext → FdContext) (m : FdManager) : FdManager where
  fdcontexts := m.fdcontexts.modify fd (Option.map f)
  small := by
    rw [List.length_modify]
    exact m.small
  low := by
    intro fd' there
    refine m.low fd' fun none => there ?_
    rw [join_modify, none]
    split <;> rfl

theorem getFdContext_addFd (added : m.addFd fd ctx = some m') :
    m'.getFdContext fd = some ctx ∧ ∀ fd', fd' ≠ fd → m'.getFdContext fd' = m.getFdContext fd' := by
  rw [addFd] at added
  split at added
  · rename_i fits
    obtain rfl := Option.some.inj added
    simp only [getFdContext_eq]
    refine ⟨?_, fun fd' other => ?_⟩
    · rw [List.getElem?_set_self fits.2]
      rfl
    · rw [List.getElem?_set_ne other.symm, join_resize]
  · cases added

theorem getFdContext_delFd_self : (m.delFd fd).getFdContext fd = none := by
  rw [delFd]
  split
  · rename_i short
    exact if_pos short
  · rename_i long
    rw [getFdContext_eq, List.getElem?_set_self (Nat.not_le.mp fun is => long (short_iff.mpr is))]
    rfl

theorem getFdContext_delFd_of_ne (other : fd' ≠ fd) :
    (m.delFd fd).getFdContext fd' = m.getFdContext fd' := by
  rw [getFdContext_eq, getFdContext_eq, delFd]
  split
  · rfl
  · rw [List.getElem?_set_ne other.symm]

theorem getFdContext_modify (f : FdContext → FdContext) :
    (m.modify fd f).getFdContext fd' =
      if fd = fd' then (m.getFdContext fd').map f else m.getFdContext fd' := by
  rw [getFdContext_eq, getFdContext_eq]
  exact join_modify f

/-- A change of a context neither makes nor drops one. -/
theorem getFdContext_modify_eq_none (f : FdContext → FdContext) :
    (m.modify fd f).getFdContext fd' = none ↔ m.getFdContext fd' = none := by
  rw [getFdContext_modify]
  split
  · rw [Option.map_eq_none_iff]
  · rfl

/-- A context is that of a descriptor. -/
theorem le_maxFd (managed : m.getFdContext fd ≠ none) : fd ≤ maxFd := by
  rw [getFdContext_eq] at managed
  exact m.low fd managed

end FdManager

end Reyao
