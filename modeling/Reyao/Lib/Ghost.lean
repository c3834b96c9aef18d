import Mathlib.Control.Monad.Basic

/-!
# Ghost state

A computation can be written a second time with notes of its own: which
positions it looked at, how often it asked for input. `Erases ghost plain` says
that without the notes the second text is the first, whatever was noted before,
so what the notes show is about the first.
-/

namespace Reyao.Lib

variable {ω α β : Type} {m : Type → Type} [Monad m]

/-- Without its notes `ghost` is `plain`. -/
def Erases (ghost : StateT ω m α) (plain : m α) : Prop :=
  ∀ notes, Prod.fst <$> ghost.run notes = plain

namespace Erases

theorem ite {c : Prop} [Decidable c] {ghost ghost' : StateT ω m α} {plain plain' : m α}
    (yes : Erases ghost plain) (no : Erases ghost' plain') :
    Erases (if c then ghost else ghost') (if c then plain else plain') := by
  by_cases holds : c
  · rw [if_pos holds, if_pos holds]
    exact yes
  · rw [if_neg holds, if_neg holds]
    exact no

variable [LawfulMonad m]

theorem pure (a : α) : Erases (pure a : StateT ω m α) (pure a) := by
  intro notes
  rw [StateT.run_pure, map_pure]

theorem lift (plain : m α) : Erases (liftM plain : StateT ω m α) plain := by
  intro notes
  rw [StateT.run_monadLift, map_bind]
  simp only [map_pure, bind_pure, monadLift_self]

theorem bind {ghost : StateT ω m α} {plain : m α} {ghosts : α → StateT ω m β} {plains : α → m β}
    (first : Erases ghost plain) (later : ∀ a, Erases (ghosts a) (plains a)) :
    Erases (ghost >>= ghosts) (plain >>= plains) := by
  intro notes
  rw [StateT.run_bind, map_bind, ← first notes, bind_map_left]
  exact bind_congr fun end_ => later end_.1 end_.2

/-- A note in front is not seen. -/
theorem note {ghost : StateT ω m α} {plain : m α} (f : ω → ω) (rest : Erases ghost plain) :
    Erases (modify f >>= fun _ => ghost) plain := by
  intro notes
  rw [StateT.run_bind, StateT.run_modify, pure_bind]
  exact rest (f notes)

end Erases

end Reyao.Lib
