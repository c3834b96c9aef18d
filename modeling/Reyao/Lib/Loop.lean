import Mathlib.Logic.Function.Iterate

/-!
# Loops that are left

A loop is given by its body, a function of what is done when the loop goes round
again. The loop is left when the body, unrolled often enough, does not depend on
what would come after it.

* `Leaves.unique`: a loop is left with one result.
* `leaves_of_rank`: a rank that goes down in every turn bounds the turns, and a
  definition of the loop by fuel gives its result.
-/

namespace Reyao.Lib

universe u v

variable {σ : Type u} {ρ : Type v} {body : (σ → ρ) → σ → ρ}

/-- The loop with the given body, begun in `s`, is left with `r`. -/
def Leaves (body : (σ → ρ) → σ → ρ) (s : σ) (r : ρ) : Prop :=
  ∃ turns, ∀ later, body^[turns] later s = r

theorem Leaves.unique {s : σ} {r r' : ρ} (first : Leaves body s r) (second : Leaves body s r') :
    r = r' := by
  obtain ⟨n, leaves⟩ := first
  obtain ⟨m, leaves'⟩ := second
  have later : σ → ρ := fun _ => r
  have whole := leaves (body^[m] later)
  rw [← Function.iterate_add_apply, Nat.add_comm, Function.iterate_add_apply, leaves'] at whole
  exact whole.symm

/-- A turn that leaves the loop. -/
theorem Leaves.now {s : σ} {r : ρ} (left : ∀ later, body later s = r) : Leaves body s r :=
  ⟨1, left⟩

/-- A turn that goes round again. -/
theorem Leaves.again {s s' : σ} {r : ρ} (round : ∀ later, body later s = later s')
    (leaves : Leaves body s' r) : Leaves body s r := by
  obtain ⟨n, leaves⟩ := leaves
  refine ⟨n + 1, fun later => ?_⟩
  rw [Function.iterate_succ_apply', round, leaves]

/-- A turn leaves the loop, or goes round with a smaller rank. -/
def Turns (I : σ → Prop) (rank : σ → Nat) (body : (σ → ρ) → σ → ρ) (s : σ) : Prop :=
  (∃ r, ∀ later, body later s = r) ∨
    ∃ s', I s' ∧ rank s' < rank s ∧ ∀ later, body later s = later s'

/-- With more fuel than the rank, the fuel is not what ends the loop. -/
theorem leaves_of_rank {I : σ → Prop} {rank : σ → Nat}
    (turns : ∀ s, I s → Turns I rank body s) (loop : Nat → σ → ρ)
    (unrolls : ∀ fuel s, I s → loop (fuel + 1) s = body (loop fuel) s) {fuel : Nat} {s : σ}
    (start : I s) (enough : rank s < fuel) : Leaves body s (loop fuel s) := by
  induction fuel generalizing s with
  | zero => exact absurd enough (Nat.not_lt_zero _)
  | succ fuel ih =>
      rw [unrolls fuel s start]
      rcases turns s start with ⟨r, left⟩ | ⟨s', next, lower, round⟩
      · rw [left]
        exact .now left
      · rw [round]
        exact .again round (ih next (by omega))

/-- A function that gives the results of a loop. -/
def Means (body : (σ → ρ) → σ → ρ) (f : σ → ρ) : Prop := ∀ s r, Leaves body s r → f s = r

/-- Every loop has such a function. -/
theorem exists_means (body : (σ → ρ) → σ → ρ) [Nonempty ρ] : ∃ f, Means body f := by
  refine ⟨fun s => Classical.epsilon (Leaves body s), fun s r leaves => ?_⟩
  have left : Leaves body s (Classical.epsilon (Leaves body s)) :=
    Classical.epsilon_spec ⟨r, leaves⟩
  exact left.unique leaves

end Reyao.Lib
