import Mathlib.Data.List.Basic

/-!
# Machines that read a stream in pieces

A `Machine` looks at its state and at the input it has and makes a move: it waits
for more, goes on after taking some input, or stops with a result. Moves are
decided by a prefix: more input behind does not change them (`stable`).

* `Settles`: what the machine does with the input it has.
* `Drive`: the machine fed chunk by chunk, settling after each one.
* `Drive.settles`: fed in chunks or with the whole stream at once, the machine
  ends the same way and leaves the same input over.
* `Drive.exact`: chunks that carry exactly what the machine takes are all it
  reads.
* `Settles.holds`, `Settles.paid`: what moves keep, results have; what a result can have cost.
-/

namespace Reyao.Lib

universe u v w

variable {α : Type u} {S : Type v} {R : Type w}

inductive Move (S : Type v) (R : Type w) : Type (max v w)
  | wait
  | go (next : S) (taken : Nat)
  | stop (result : R) (taken : Nat)

structure Machine (α : Type u) (S : Type v) (R : Type w) : Type (max u v w) where
  step : S → List α → Move S R
  stable : ∀ {s : S} {q : List α}, step s q ≠ .wait → ∀ more, step s (q ++ more) = step s q
  go_le : ∀ {s s' : S} {q : List α} {n : Nat}, step s q = .go s' n → n ≤ q.length
  stop_le : ∀ {s : S} {q : List α} {r : R} {n : Nat}, step s q = .stop r n → n ≤ q.length

/-- How a machine ends: in a state that waits, or with a result. -/
inductive Verdict (S : Type v) (R : Type w) : Type (max v w)
  | paused (s : S)
  | stopped (r : R)

/-- The machine moves as long as it can; the last list is the input left over. -/
inductive Settles (M : Machine α S R) : S → List α → Verdict S R → List α → Prop
  | wait {s : S} {q : List α} :
    M.step s q = .wait → Settles M s q (.paused s) q
  | stop {s : S} {q : List α} {r : R} {n : Nat} :
    M.step s q = .stop r n → Settles M s q (.stopped r) (q.drop n)
  | go {s s' : S} {q left : List α} {n : Nat} {v : Verdict S R} :
    M.step s q = .go s' n → Settles M s' (q.drop n) v left → Settles M s q v left

/-- The machine fed with chunks; the last two lists are the input left over and
the chunks it did not read. -/
inductive Drive (M : Machine α S R) :
    S → List α → List (List α) → Verdict S R → List α → List (List α) → Prop
  | stop {s : S} {q left : List α} {r : R} {chunks : List (List α)} :
    Settles M s q (.stopped r) left → Drive M s q chunks (.stopped r) left chunks
  | read {s s' : S} {q q' left chunk : List α} {chunks rest : List (List α)} {v : Verdict S R} :
    Settles M s q (.paused s') q' → Drive M s' (q' ++ chunk) chunks v left rest →
    Drive M s q (chunk :: chunks) v left rest
  | eof {s s' : S} {q q' : List α} :
    Settles M s q (.paused s') q' → Drive M s q [] (.paused s') q' []

variable {M : Machine α S R} {s : S} {q left : List α} {v : Verdict S R}

theorem Settles.unique {v' : Verdict S R} {left' : List α}
    (first : Settles M s q v left) (second : Settles M s q v' left') : v = v' ∧ left = left' := by
  induction first generalizing v' left' with
  | wait here =>
      cases second with
      | wait => exact ⟨rfl, rfl⟩
      | stop there => rw [here] at there; cases there
      | go there => rw [here] at there; cases there
  | stop here =>
      cases second with
      | wait there => rw [here] at there; cases there
      | stop there =>
          rw [here] at there
          cases there
          exact ⟨rfl, rfl⟩
      | go there => rw [here] at there; cases there
  | go here _ ih =>
      cases second with
      | wait there => rw [here] at there; cases there
      | stop there => rw [here] at there; cases there
      | go there rest =>
          rw [here] at there
          cases there
          exact ih rest

/-- A machine that goes on does what it does from there. -/
theorem Settles.go_iff {s' : S} {n : Nat} (here : M.step s q = .go s' n) :
    Settles M s' (q.drop n) v left ↔ Settles M s q v left := by
  constructor
  · exact Settles.go here
  · intro settled
    cases settled with
    | wait there => rw [here] at there; cases there
    | stop there => rw [here] at there; cases there
    | go there next =>
        rw [here] at there
        cases there
        exact next

/-- A move is made with more input behind it just the same. -/
theorem Machine.step_append {move : Move S R} (here : M.step s q = move) (moves : move ≠ .wait)
    (more : List α) : M.step s (q ++ more) = move := by
  rw [M.stable (by rw [here]; exact moves) more, here]

/-- A result is reached with more input behind it just the same. -/
theorem Settles.stopped_append {r : R} (settled : Settles M s q (.stopped r) left)
    (more : List α) : Settles M s (q ++ more) (.stopped r) (left ++ more) := by
  generalize ends : (Verdict.stopped r : Verdict S R) = v at settled
  induction settled with
  | wait => cases ends
  | stop here =>
      cases ends
      rw [← List.drop_append_of_le_length (M.stop_le here)]
      exact .stop (Machine.step_append here (by simp) more)
  | go here _ ih =>
      refine .go (Machine.step_append here (by simp) more) ?_
      rw [List.drop_append_of_le_length (M.go_le here)]
      exact ih ends

/-- Settling, waiting for more input and settling again is settling once. -/
theorem Settles.resume {s' : S} {q' more : List α} (settled : Settles M s q (.paused s') q')
    (next : Settles M s' (q' ++ more) v left) : Settles M s (q ++ more) v left := by
  generalize ends : (Verdict.paused s' : Verdict S R) = v' at settled
  induction settled with
  | wait =>
      cases ends
      exact next
  | stop => cases ends
  | go here _ ih =>
      refine .go (Machine.step_append here (by simp) more) ?_
      rw [List.drop_append_of_le_length (M.go_le here)]
      exact ih next ends

/-- What happens with more input from the start happens with it after a wait. -/
theorem Settles.after_pause {s' : S} {q' more : List α}
    (settled : Settles M s q (.paused s') q') (whole : Settles M s (q ++ more) v left) :
    Settles M s' (q' ++ more) v left := by
  generalize ends : (Verdict.paused s' : Verdict S R) = v' at settled
  induction settled with
  | wait =>
      cases ends
      exact whole
  | stop => cases ends
  | go here _ ih =>
      have moved := Machine.step_append here (by simp) more
      cases whole with
      | wait there => rw [moved] at there; cases there
      | stop there => rw [moved] at there; cases there
      | go there rest =>
          rw [moved] at there
          cases there
          rw [List.drop_append_of_le_length (M.go_le here)] at rest
          exact ih rest ends

/-- A machine that settles with some input settles with the first part of it. -/
theorem Settles.of_append {more : List α} (settled : Settles M s (q ++ more) v left) :
    ∃ v' left', Settles M s q v' left' := by
  generalize whole : q ++ more = q' at settled
  induction settled generalizing q with
  | @wait s q' here =>
      cases first : M.step s q with
      | wait => exact ⟨_, _, .wait first⟩
      | go next n =>
          rw [← whole, Machine.step_append first (by simp) more] at here
          cases here
      | stop r n => exact ⟨_, _, .stop first⟩
  | @stop s q' r n here =>
      cases first : M.step s q with
      | wait => exact ⟨_, _, .wait first⟩
      | go next n =>
          rw [← whole, Machine.step_append first (by simp) more] at here
          cases here
      | stop r n => exact ⟨_, _, .stop first⟩
  | @go s s' q' left n v here _ ih =>
      cases first : M.step s q with
      | wait => exact ⟨_, _, .wait first⟩
      | go next m =>
          rw [← whole, Machine.step_append first (by simp) more] at here
          cases here
          obtain ⟨v', left', settled⟩ := ih (q := q.drop n)
            (by rw [← whole, List.drop_append_of_le_length (M.go_le first)])
          exact ⟨v', left', .go first settled⟩
      | stop r m => exact ⟨_, _, .stop first⟩

/-- A machine that has settled without a result waits. -/
theorem Settles.paused_wait {s' : S} (settled : Settles M s q (.paused s') left) :
    M.step s' left = .wait := by
  generalize ends : (Verdict.paused s' : Verdict S R) = v at settled
  induction settled with
  | wait here =>
      cases ends
      exact here
  | stop => cases ends
  | go _ _ ih => exact ih ends

/-- A drive may settle first. -/
theorem Drive.after {s' : S} {q' : List α} {chunks rest : List (List α)}
    (settled : Settles M s q (.paused s') q') (drive : Drive M s' q' chunks v left rest) :
    Drive M s q chunks v left rest := by
  have again : ∀ {v : Verdict S R} {left : List α}, Settles M s' q' v left →
      Settles M s q v left := by
    intro v left next
    have whole := settled.resume (show Settles M s' (q' ++ []) v left by rwa [List.append_nil])
    rwa [List.append_nil] at whole
  cases drive with
  | stop next => exact .stop (again next)
  | read next drive => exact .read (again next) drive
  | eof next => exact .eof (again next)

/-- Feeding in chunks ends as feeding everything at once. -/
theorem Drive.settles {chunks rest : List (List α)} (drive : Drive M s q chunks v left rest) :
    Settles M s (q ++ chunks.flatten) v (left ++ rest.flatten) := by
  induction drive with
  | stop settled => exact settled.stopped_append _
  | read settled _ ih =>
      rw [List.append_assoc] at ih
      exact settled.resume ih
  | eof settled =>
      rw [List.flatten_nil, List.append_nil, List.append_nil]
      exact settled

/-- A result is reached with the chunks that were read, and what they leave over is
lost with them. -/
theorem Drive.consumed {r : R} {chunks rest : List (List α)}
    (drive : Drive M s q chunks (.stopped r) left rest) :
    ∃ front, chunks = front ++ rest ∧ Settles M s (q ++ front.flatten) (.stopped r) left := by
  generalize ends : (Verdict.stopped r : Verdict S R) = v at drive
  induction drive with
  | stop settled =>
      refine ⟨[], rfl, ?_⟩
      rw [List.flatten_nil, List.append_nil]
      exact settled
  | @read s s' q q' left chunk chunks rest v settled _ ih =>
      obtain ⟨front, rfl, later⟩ := ih ends
      refine ⟨chunk :: front, rfl, ?_⟩
      rw [List.append_assoc] at later
      rw [List.flatten_cons]
      exact settled.resume later
  | eof => cases ends

/-- A machine that waits in the end has read every chunk. -/
theorem Drive.paused_all {s' : S} {chunks rest : List (List α)}
    (drive : Drive M s q chunks (.paused s') left rest) : rest = [] := by
  generalize ends : (Verdict.paused s' : Verdict S R) = v at drive
  induction drive with
  | stop => cases ends
  | read _ _ ih => exact ih ends
  | eof => rfl

/-- Chunks behind those that lead to a result are not read. -/
theorem Drive.within {r : R} {front back rest : List (List α)} {left' : List α}
    (enough : Settles M s (q ++ front.flatten) (.stopped r) left')
    (drive : Drive M s q (front ++ back) v left rest) :
    v = .stopped r ∧ ∃ unread, rest = unread ++ back := by
  generalize whole : front ++ back = chunks at drive
  induction drive generalizing front with
  | stop settled =>
      obtain ⟨same, -⟩ := (settled.stopped_append front.flatten).unique enough
      exact ⟨same, front, whole.symm⟩
  | read settled _ ih =>
      cases front with
      | nil =>
          rw [List.flatten_nil, List.append_nil] at enough
          cases (settled.unique enough).1
      | cons chunk front =>
          rw [List.cons_append, List.cons.injEq] at whole
          obtain ⟨rfl, whole⟩ := whole
          refine ih ?_ whole
          rw [List.append_assoc]
          exact settled.after_pause enough
  | eof settled =>
      obtain ⟨rfl, rfl⟩ := List.append_eq_nil_iff.mp whole
      rw [List.flatten_nil, List.append_nil] at enough
      cases (settled.unique enough).1

/-- Chunks that carry exactly what leads to a result are read, and no others. -/
theorem Drive.exact {r : R} {front back rest : List (List α)}
    (nonempty : ∀ chunk ∈ front, chunk ≠ [])
    (enough : Settles M s (q ++ front.flatten) (.stopped r) [])
    (drive : Drive M s q (front ++ back) v left rest) :
    v = .stopped r ∧ left = [] ∧ rest = back := by
  generalize whole : front ++ back = chunks at drive
  induction drive generalizing front with
  | stop settled =>
      obtain ⟨same, nothing⟩ := (settled.stopped_append front.flatten).unique enough
      obtain ⟨none_left, none_unread⟩ := List.append_eq_nil_iff.mp nothing
      cases same
      cases front with
      | nil => exact ⟨rfl, none_left, whole.symm⟩
      | cons chunk front =>
          rw [List.flatten_cons, List.append_eq_nil_iff] at none_unread
          exact absurd none_unread.1 (nonempty chunk List.mem_cons_self)
  | read settled _ ih =>
      cases front with
      | nil =>
          rw [List.flatten_nil, List.append_nil] at enough
          cases (settled.unique enough).1
      | cons chunk front =>
          rw [List.cons_append, List.cons.injEq] at whole
          obtain ⟨rfl, whole⟩ := whole
          refine ih (fun c member => nonempty c (List.mem_cons_of_mem _ member)) ?_ whole
          rw [List.append_assoc]
          exact settled.after_pause enough
  | eof settled =>
      obtain ⟨rfl, rfl⟩ := List.append_eq_nil_iff.mp whole
      rw [List.flatten_nil, List.append_nil] at enough
      cases (settled.unique enough).1

/-- Part of a text that leads to a result: if it leads to one, it is that, and nothing of the text
is missing. -/
theorem Settles.part_stopped {r r' : R} {more : List α}
    (whole : Settles M s (q ++ more) (.stopped r) []) (part : Settles M s q (.stopped r') left) :
    r' = r ∧ more = [] := by
  obtain ⟨same, nothing⟩ := (part.stopped_append more).unique whole
  cases same
  exact ⟨rfl, (List.append_eq_nil_iff.mp nothing).2⟩

/-- Chunks that come later are not read once there is a result. -/
theorem Drive.append {r : R} {chunks rest : List (List α)}
    (drive : Drive M s q chunks (.stopped r) left rest) (more : List (List α)) :
    Drive M s q (chunks ++ more) (.stopped r) left (rest ++ more) := by
  generalize ends : (Verdict.stopped r : Verdict S R) = v at drive
  induction drive with
  | stop settled =>
      cases ends
      exact .stop settled
  | read settled _ ih => exact .read settled (ih ends)
  | eof => cases ends

/-- A machine that waits takes one chunk more. -/
theorem Drive.snoc {s' : S} {q' chunk : List α} {chunks rest : List (List α)}
    (drive : Drive M s q chunks (.paused s') q' rest) (next : Settles M s' (q' ++ chunk) v left) :
    Drive M s q (chunks ++ [chunk]) v left [] := by
  generalize ends : (Verdict.paused s' : Verdict S R) = v' at drive
  induction drive with
  | stop => cases ends
  | read settled _ ih => exact .read settled (ih next ends)
  | eof settled =>
      cases ends
      refine .read settled ?_
      cases v with
      | paused => exact .eof next
      | stopped => exact .stop next

theorem Drive.unique {v' : Verdict S R} {left' : List α} {chunks rest rest' : List (List α)}
    (first : Drive M s q chunks v left rest) (second : Drive M s q chunks v' left' rest') :
    v = v' ∧ left = left' ∧ rest = rest' := by
  induction first with
  | stop settled =>
      cases second with
      | stop settled' =>
          obtain ⟨same, same_left⟩ := settled.unique settled'
          exact ⟨same, same_left, rfl⟩
      | read settled' => cases (settled.unique settled').1
      | eof settled' => cases (settled.unique settled').1
  | read settled _ ih =>
      cases second with
      | stop settled' => cases (settled.unique settled').1
      | read settled' second =>
          obtain ⟨same, rfl⟩ := settled.unique settled'
          cases same
          exact ih second
  | eof settled =>
      cases second with
      | stop settled' => cases (settled.unique settled').1
      | eof settled' =>
          obtain ⟨same, same_left⟩ := settled.unique settled'
          exact ⟨same, same_left, rfl⟩

/-- What every move keeps, a result that is reached has. -/
theorem Settles.holds {I : S → Prop} {J : R → Prop}
    (goes : ∀ {s s' : S} {q : List α} {n : Nat}, I s → M.step s q = .go s' n → I s')
    (stops : ∀ {s : S} {q : List α} {r : R} {n : Nat}, I s → M.step s q = .stop r n → J r)
    {r : R} (start : I s) (settled : Settles M s q (.stopped r) left) : J r := by
  generalize ends : (Verdict.stopped r : Verdict S R) = v at settled
  induction settled with
  | wait => cases ends
  | stop here =>
      cases ends
      exact stops start here
  | go here _ ih => exact ih (goes start here) ends

/-- If every move adds no more to the worth of a state than the input it takes,
a result is worth no more than the input that led to it. -/
theorem Settles.paid {I : S → Prop} {worth : S → Nat} {value : R → Nat}
    (goes : ∀ {s s' : S} {q : List α} {n : Nat}, I s → M.step s q = .go s' n →
      I s' ∧ worth s' ≤ worth s + n)
    (stops : ∀ {s : S} {q : List α} {r : R} {n : Nat}, I s → M.step s q = .stop r n →
      value r ≤ worth s + n)
    {r : R} (start : I s) (settled : Settles M s q (.stopped r) left) :
    value r + left.length ≤ worth s + q.length := by
  generalize ends : (Verdict.stopped r : Verdict S R) = v at settled
  induction settled with
  | wait => cases ends
  | stop here =>
      cases ends
      have bound := stops start here
      have enough := M.stop_le here
      rw [List.length_drop]
      omega
  | @go s s' q left n v here _ ih =>
      obtain ⟨next, bound⟩ := goes start here
      have enough := M.go_le here
      have later := ih next ends
      rw [List.length_drop] at later
      omega

end Reyao.Lib
