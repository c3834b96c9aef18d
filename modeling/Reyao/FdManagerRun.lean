import Reyao.Hook

/-!
# Contexts and the files they were made for (`hook.cc`, `fdmanager.cc`)

`socket` and `close` look at `t_hookEnable` before they touch the table of contexts,
`accept` does not, and calls such as `open` and `eventfd` are not hooked. So a context
may outlive its file: a close on a thread without hooks leaves it in the table, and the
kernel gives the number to the next file.
-/

namespace Reyao

open Lib

/-- The files that are open and the contexts of their descriptors. -/
structure FileTable : Type where
  files : Nat → Option File
  /-- The number of the next file. -/
  nextFile : Nat
  fdmanager : FdManager
  /-- The file that was open when the context of a descriptor was made. No call looks
  at it. -/
  madeFor : Nat → Option File

/-- The calls that make and close descriptors, each with the thread's `t_hookEnable` and
with the descriptor that it returns, if it does not fail. -/
inductive FileCall : Type
  | socket (hookEnable : Bool) (result : Option Nat)
  | accept (hookEnable : Bool) (sockfd : Nat) (result : Option Nat)
  | close (hookEnable : Bool) (fd : Nat)
  /-- `open`, `eventfd` and the like. -/
  | create (isSock : Bool) (result : Option Nat)
  deriving DecidableEq

namespace FileTable

/-- A process that has inherited `n` descriptors and has not opened any. -/
def init (n : Nat) : FileTable where
  files fd := if fd < n then some ⟨fd, false⟩ else none
  nextFile := n
  fdmanager := .new
  madeFor _ := none

/-- The kernel opens a file under the lowest free number. -/
def openFile (fd : Nat) (isSock : Bool) (s : FileTable) : Option FileTable :=
  if s.files fd = none ∧ ∀ below < fd, s.files below ≠ none then
    some { s with
      files := Function.update s.files fd (some ⟨s.nextFile, isSock⟩)
      nextFile := s.nextFile + 1 }
  else none

/-- `addFd(fd)`; `init` asks the kernel for the kind of the file. -/
def addFd (fd : Nat) (s : FileTable) : Option FileTable := do
  let fdmanager ← s.fdmanager.addFd fd { isSock := (s.files fd).any File.isSock }
  return { s with
    fdmanager := fdmanager
    madeFor := Function.update s.madeFor fd (s.files fd) }

/-- The original `close`. -/
def closeOrigin (fd : Nat) (s : FileTable) : FileTable :=
  { s with files := Function.update s.files fd none }

def socket (hookEnable : Bool) (fd : Nat) (s : FileTable) : Option FileTable := do
  let s ← s.openFile fd true
  if hookEnable then s.addFd fd else return s

/-- `accept` on a descriptor that is open: `do_io` returns the new descriptor on threads
of both kinds. -/
def accept (sockfd fd : Nat) (s : FileTable) : Option FileTable :=
  if s.files sockfd = none then none
  else do
    let s ← s.openFile fd true
    s.addFd fd

def close (hookEnable : Bool) (fd : Nat) (s : FileTable) : FileTable :=
  if !hookEnable then s.closeOrigin fd
  else
    match s.fdmanager.getFdContext fd with
    | some _ => { s with fdmanager := s.fdmanager.delFd fd }.closeOrigin fd
    | none => s.closeOrigin fd

/-- A call; one that returns -1 changes nothing. -/
def step (s : FileTable) : FileCall → Option FileTable
  | .socket hookEnable (some fd) => s.socket hookEnable fd
  | .accept _ sockfd (some fd) => s.accept sockfd fd
  | .create isSock (some fd) => s.openFile fd isSock
  | .close hookEnable fd => some (s.close hookEnable fd)
  | .socket _ none => some s
  | .accept _ _ none => some s
  | .create _ none => some s

/-- Every context is that of the file which is open under its descriptor now. -/
def Fresh (s : FileTable) : Prop :=
  ∀ fd ctx, s.fdmanager.getFdContext fd = some ctx →
    ∃ file, s.files fd = some file ∧ s.madeFor fd = some file ∧ ctx.isSock = file.isSock

variable {s t : FileTable} {fd : Nat}

theorem fresh_init (n : Nat) : (init n).Fresh := by
  intro fd ctx found
  cases found

theorem Fresh.openFile (fresh : s.Fresh) {isSock : Bool} (done : s.openFile fd isSock = some t) :
    t.Fresh ∧ t.files fd ≠ none ∧ t.fdmanager = s.fdmanager := by
  unfold FileTable.openFile at done
  split at done
  · rename_i lowest
    cases done
    refine ⟨fun fd' ctx found => ?_, ?_, rfl⟩
    · obtain ⟨file, opened, made, same⟩ := fresh fd' ctx found
      have other : fd' ≠ fd := by
        rintro rfl
        rw [lowest.1] at opened
        cases opened
      exact ⟨file, (Function.update_of_ne other ..).trans opened, made, same⟩
    · have is := Function.update_self fd (some ⟨s.nextFile, isSock⟩) s.files
      exact fun closed => Option.some_ne_none _ (is.symm.trans closed)
  · cases done

theorem Fresh.addFd (fresh : s.Fresh) (opened : s.files fd ≠ none) (done : s.addFd fd = some t) :
    t.Fresh := by
  obtain ⟨fdmanager, added, made⟩ := Option.bind_eq_some_iff.mp done
  cases made
  obtain ⟨here, elsewhere⟩ := FdManager.getFdContext_addFd added
  intro fd' ctx found
  by_cases same : fd' = fd
  · subst same
    obtain ⟨file, is⟩ := Option.ne_none_iff_exists'.mp opened
    cases here.symm.trans found
    refine ⟨file, is, (Function.update_self ..).trans is, ?_⟩
    rw [is]
    rfl
  · obtain ⟨file, is, madeFor, kind⟩ := fresh fd' ctx ((elsewhere fd' same).symm.trans found)
    exact ⟨file, is, (Function.update_of_ne same ..).trans madeFor, kind⟩

/-- A file may be closed when it has no context. -/
theorem Fresh.closeOrigin_iff (fresh : s.Fresh) :
    (s.closeOrigin fd).Fresh ↔ s.fdmanager.getFdContext fd = none := by
  constructor
  · intro still
    cases found : s.fdmanager.getFdContext fd with
    | none => rfl
    | some ctx =>
        obtain ⟨file, is, -⟩ := still fd ctx found
        have closed : (s.closeOrigin fd).files fd = none := Function.update_self ..
        rw [closed] at is
        cases is
  · intro without fd' ctx found
    have other : fd' ≠ fd := by
      rintro rfl
      have both := without.symm.trans found
      cases both
    obtain ⟨file, is, made, same⟩ := fresh fd' ctx found
    exact ⟨file, (Function.update_of_ne other ..).trans is, made, same⟩

theorem Fresh.delFd (fresh : s.Fresh) :
    ({ s with fdmanager := s.fdmanager.delFd fd } : FileTable).Fresh := by
  intro fd' ctx found
  by_cases same : fd' = fd
  · subst same
    rw [FdManager.getFdContext_delFd_self] at found
    cases found
  · rw [FdManager.getFdContext_delFd_of_ne same] at found
    exact fresh fd' ctx found

/-- A close on a thread with hooks drops the context with the file. -/
theorem Fresh.close (fresh : s.Fresh) : (s.close true fd).Fresh := by
  unfold FileTable.close
  simp only [Bool.not_true, Bool.false_eq_true, if_false]
  split
  · exact fresh.delFd.closeOrigin_iff.mpr FdManager.getFdContext_delFd_self
  · rename_i without
    exact fresh.closeOrigin_iff.mpr without

/-- The condition on a call: a close on a thread without hooks is of a descriptor that
has no context. -/
def CloseUnmanaged (s : FileTable) (call : FileCall) : Prop :=
  ∀ fd, call = .close false fd → s.fdmanager.getFdContext fd = none

/-- What a call does to contexts that are those of their files. -/
theorem Fresh.step_iff (fresh : s.Fresh) {call : FileCall} (done : s.step call = some t) :
    t.Fresh ↔ s.CloseUnmanaged call := by
  have other (notClose : ∀ fd, call ≠ .close false fd) (kept : t.Fresh) :
      t.Fresh ↔ s.CloseUnmanaged call :=
    iff_of_true kept fun fd same => absurd same (notClose fd)
  cases call with
  | socket hookEnable result =>
      refine other (fun fd => FileCall.noConfusion) ?_
      cases result with
      | none =>
          cases done
          exact fresh
      | some fd =>
          obtain ⟨u, made, rest⟩ := Option.bind_eq_some_iff.mp done
          obtain ⟨fresh', is, -⟩ := fresh.openFile made
          cases hookEnable with
          | true => exact fresh'.addFd is rest
          | false =>
              cases rest
              exact fresh'
  | accept hookEnable sockfd result =>
      refine other (fun fd => FileCall.noConfusion) ?_
      cases result with
      | none =>
          cases done
          exact fresh
      | some fd =>
          simp only [step, accept] at done
          split at done
          · cases done
          · obtain ⟨u, made, rest⟩ := Option.bind_eq_some_iff.mp done
            obtain ⟨fresh', is, -⟩ := fresh.openFile made
            exact fresh'.addFd is rest
  | create isSock result =>
      refine other (fun fd => FileCall.noConfusion) ?_
      cases result with
      | none =>
          cases done
          exact fresh
      | some fd => exact (fresh.openFile done).1
  | close hookEnable fd =>
      cases done
      cases hookEnable with
      | true =>
          refine other (fun fd' same => ?_) fresh.close
          cases same
      | false =>
          refine fresh.closeOrigin_iff.trans ⟨fun without fd' same => ?_, fun unmanaged => ?_⟩
          · cases same
            exact without
          · exact unmanaged fd rfl

/-- **When contexts are those of their files.** In every state that a sequence of calls
goes through, every context is of the file open under its descriptor, if and only if no
thread without hooks closes a descriptor that has a context. -/
theorem contexts_fresh_iff (n : Nat) (calls : List FileCall) :
    (∀ before t, before <+: calls → Run (Steps step) (init n) before t → t.Fresh) ↔
      ∀ before fd t, before ++ [.close false fd] <+: calls →
        Run (Steps step) (init n) before t → t.fdmanager.getFdContext fd = none := by
  refine (Run.forall_prefix_iff (I := Fresh) (fresh_init n)
    (fun fresh done => fresh.step_iff done) calls).trans ?_
  constructor
  · intro meets before fd t within run
    exact meets before _ t _ within run rfl fd rfl
  · rintro meets before call t u within run - fd rfl
    exact meets before fd t within run

/-- A socket of a thread with hooks is closed on a thread without, and the next file gets
its number: it is managed as a socket with the state of the old one. -/
theorem not_contexts_fresh : ∃ t, Run (Steps step) (init 3)
      [.socket true (some 3), .close false 3, .create false (some 3)] t ∧
    t.fdmanager.getFdContext 3 = some { isSock := true } ∧ t.files 3 = some ⟨4, false⟩ ∧
    t.madeFor 3 = some ⟨3, true⟩ ∧ ¬t.Fresh := by
  refine ⟨_, run_of_exec rfl, rfl, rfl, rfl, fun fresh => ?_⟩
  obtain ⟨file, is, -, kind⟩ := fresh 3 _ rfl
  cases is
  cases kind

end FileTable

end Reyao
