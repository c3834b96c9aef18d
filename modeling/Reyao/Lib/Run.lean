import Mathlib.Data.List.Basic
import Mathlib.Data.List.Forall2
import Mathlib.Data.List.Induction

/-!
# Labelled runs

A system is a relation `Step : σ → ε → σ → Prop` whose event `ε` records what
the step did, results included. `Run Step s es t` is a run from `s` to `t` with
the events `es` in order. Runs grow at the end, so an induction over a run sees
the whole history before its last event.

* `Run.invariant`, `Run.historyInvariant`: what one step keeps, a run keeps.
* `Run.forall_prefix_iff`, `Run.forall_steps_iff`: when exactly a property holds all along
  a run, and when exactly all its steps do what they should.
* `Run.simulate`: a run of a concrete system replayed event by event on an
  abstract one.
* `Run.refine`: a run of a concrete system seen as one of an abstract one, where a step may be
  none or several of that one and only some events are seen in both.
* `Guarded`: the steps that meet a condition on the state before the step.
* `exec`: runs of a partial step function.
* `along_iff`: when exactly all steps of a sequence of fallible ones do what they should.
-/

namespace Reyao.Lib

universe u v w

variable {σ : Type u} {τ : Type v} {ε : Type w}

/-- A run of `Step` with its events, oldest first. -/
inductive Run (Step : σ → ε → σ → Prop) : σ → List ε → σ → Prop
  | nil (s : σ) : Run Step s [] s
  | snoc {s t u : σ} {es : List ε} {e : ε} :
    Run Step s es t → Step t e u → Run Step s (es ++ [e]) u

/-- The steps of `Step` that meet a condition on the state they start from. -/
def Guarded (ok : σ → ε → Prop) (Step : σ → ε → σ → Prop) : σ → ε → σ → Prop :=
  fun s e t => ok s e ∧ Step s e t

section

variable {Step : σ → ε → σ → Prop}

theorem Run.single {s t : σ} {e : ε} (step : Step s e t) : Run Step s [e] t :=
  Run.snoc (Run.nil s) step

theorem Run.append {s t u : σ} {es fs : List ε}
    (first : Run Step s es t) (second : Run Step t fs u) : Run Step s (es ++ fs) u := by
  induction second with
  | nil => rwa [List.append_nil]
  | snoc _ step ih =>
      rw [← List.append_assoc]
      exact ih.snoc step

theorem Run.cons {s t u : σ} {e : ε} {es : List ε}
    (step : Step s e t) (rest : Run Step t es u) : Run Step s (e :: es) u :=
  (Run.single step).append rest

/-- A property of the state and of the history that starts true and that every
step keeps is true after every run. -/
theorem Run.historyInvariant {I : List ε → σ → Prop} {s t : σ} {es : List ε}
    (start : I [] s)
    (keep : ∀ {es s e t}, I es s → Step s e t → I (es ++ [e]) t)
    (run : Run Step s es t) : I es t := by
  induction run with
  | nil => exact start
  | snoc _ step ih => exact keep ih step

/-- A property that every step keeps is kept by every run. -/
theorem Run.invariant {I : σ → Prop} {s t : σ} {es : List ε}
    (start : I s) (keep : ∀ {s e t}, I s → Step s e t → I t)
    (run : Run Step s es t) : I t :=
  run.historyInvariant (I := fun _ s => I s) start keep

/-- A run cut at one of its events. -/
theorem Run.split {s u : σ} {pre post : List ε} {e : ε}
    (run : Run Step s (pre ++ e :: post) u) :
    ∃ t t', Run Step s pre t ∧ Step t e t' ∧ Run Step t' post u := by
  generalize whole : pre ++ e :: post = es at run
  induction run generalizing post with
  | nil => cases pre <;> cases whole
  | @snoc t u es f prior step ih =>
      rcases List.eq_nil_or_concat post with rfl | ⟨post', f', rfl⟩
      · obtain ⟨rfl, last⟩ := List.append_inj' whole rfl
        cases last
        exact ⟨t, u, prior, step, Run.nil u⟩
      · rw [List.concat_eq_append, ← List.cons_append, ← List.append_assoc] at whole
        obtain ⟨body, last⟩ := List.append_inj' whole rfl
        cases last
        obtain ⟨a, b, before, at_e, after⟩ := ih body
        rw [List.concat_eq_append]
        exact ⟨a, b, before, at_e, after.snoc step⟩

/-- Where the steps that do what they should keep a property, a sequence of events whose
steps all do so goes only through states with the property. -/
theorem Run.forall_prefix {I : σ → Prop} {Q : σ → ε → σ → Prop} {s : σ} {es : List ε}
    (start : I s) (keep : ∀ {s e t}, I s → Step s e t → Q s e t → I t)
    (does : ∀ before e t u, before ++ [e] <+: es → Run Step s before t → Step t e u → Q t e u) :
    ∀ before t, before <+: es → Run Step s before t → I t := by
  intro before t within run
  induction run with
  | nil => exact start
  | snoc prior step ih =>
      have here := ih ((List.prefix_append _ _).trans within)
      exact keep here step (does _ _ _ _ within prior step)

/-- Where a step does what it should exactly when it meets a condition, as long as all
steps before it did, the steps of a sequence of events all do so exactly when all of them meet
the condition. -/
theorem Run.forall_steps_iff {I : σ → Prop} {Q : σ → ε → σ → Prop} {ok : σ → ε → Prop} {s : σ}
    (start : I s) (keep : ∀ {s e t}, I s → Step s e t → Q s e t → I t)
    (exact : ∀ {s e t}, I s → Step s e t → (Q s e t ↔ ok s e)) (es : List ε) :
    (∀ before e t u, before ++ [e] <+: es → Run Step s before t → Step t e u → Q t e u) ↔
      ∀ before e t u, before ++ [e] <+: es → Run Step s before t → Step t e u → ok t e := by
  constructor
  · intro does before e t u within run step
    have here := Run.forall_prefix start keep does before t
      ((List.prefix_append before [e]).trans within) run
    exact (exact here step).mp (does before e t u within run step)
  · intro meets before e t u within run step
    have here := Run.forall_prefix (Q := fun s e _ => ok s e) start
      (fun here step met => keep here step ((exact here step).mpr met)) meets before t
      ((List.prefix_append before [e]).trans within) run
    exact (exact here step).mpr (meets before e t u within run step)

/-- Where a step keeps a property exactly when it meets a condition, the property holds
in every state that a sequence of events goes through exactly when all of its steps meet
the condition. -/
theorem Run.forall_prefix_iff {I : σ → Prop} {ok : σ → ε → Prop} {s : σ} (start : I s)
    (keep : ∀ {s e t}, I s → Step s e t → (I t ↔ ok s e)) (es : List ε) :
    (∀ before t, before <+: es → Run Step s before t → I t) ↔
      ∀ before e t u, before ++ [e] <+: es → Run Step s before t → Step t e u → ok t e := by
  refine Iff.trans ?_ (@Run.forall_steps_iff σ ε Step I (fun _ _ t => I t) ok s start
    (fun _ _ => id) keep es)
  constructor
  · exact fun always before e t u within run step => always _ u within (run.snoc step)
  · exact Run.forall_prefix start fun _ _ => id

/-- Replay a run on an abstract system, event by event. -/
theorem Run.simulate {A : τ → ε → τ → Prop} {R : σ → τ → Prop}
    {s t : σ} {a : τ} {es : List ε} (start : R s a)
    (step : ∀ {s e t a}, R s a → Step s e t → ∃ b, A a e b ∧ R t b)
    (run : Run Step s es t) : ∃ b, Run A a es b ∧ R t b := by
  induction run with
  | nil => exact ⟨a, Run.nil a, start⟩
  | snoc _ last ih =>
      obtain ⟨b, replay, related⟩ := ih
      obtain ⟨c, astep, related'⟩ := step related last
      exact ⟨c, replay.snoc astep, related'⟩

/-- Where every step is a run of an abstract system in which the same is seen, a run is one too. -/
theorem Run.refine {δ ο : Type*} {A : τ → δ → τ → Prop} {v : σ → τ} {I : σ → Prop}
    {p : ε → Option ο} {q : δ → Option ο} {s t : σ} {es : List ε} (start : I s)
    (step : ∀ {s e t}, I s → Step s e t →
      I t ∧ ∃ fs, Run A (v s) fs (v t) ∧ fs.filterMap q = (p e).toList)
    (run : Run Step s es t) :
    I t ∧ ∃ fs, Run A (v s) fs (v t) ∧ fs.filterMap q = es.filterMap p := by
  induction run with
  | nil => exact ⟨start, [], Run.nil _, rfl⟩
  | @snoc t u es e _ last ih =>
      obtain ⟨kept, fs, first, same⟩ := ih
      obtain ⟨kept', gs, second, same'⟩ := step kept last
      refine ⟨kept', fs ++ gs, first.append second, ?_⟩
      rw [List.filterMap_append, List.filterMap_append, same, same']
      cases at_e : p e with
      | none =>
          rw [List.filterMap_cons_none at_e]
          rfl
      | some o =>
          rw [List.filterMap_cons_some at_e]
          rfl

/-- A run of a system with fewer steps. -/
theorem Run.mono {Step' : σ → ε → σ → Prop} (le : ∀ {s e t}, Step s e t → Step' s e t)
    {s t : σ} {es : List ε} (run : Run Step s es t) : Run Step' s es t := by
  induction run with
  | nil => exact Run.nil _
  | snoc _ step ih => exact ih.snoc (le step)

/-- Forget the condition on the steps. -/
theorem Run.of_guarded {ok : σ → ε → Prop} {s t : σ} {es : List ε}
    (run : Run (Guarded ok Step) s es t) : Run Step s es t :=
  run.mono And.right

/-- A condition that the events meet in every state. -/
theorem Run.guarded {ok : σ → ε → Prop} {s t : σ} {es : List ε}
    (run : Run Step s es t) (meets : ∀ e ∈ es, ∀ s, ok s e) : Run (Guarded ok Step) s es t := by
  induction run with
  | nil => exact Run.nil _
  | snoc _ step ih =>
      refine (ih fun e member => meets e (List.mem_append_left _ member)).snoc ⟨?_, step⟩
      exact meets _ (List.mem_append_right _ List.mem_cons_self) _

end

/-! ## Executable systems -/

/-- Run a partial step function over a list of labels. -/
def exec (step : σ → ε → Option σ) : σ → List ε → Option σ
  | s, [] => some s
  | s, e :: es => (step s e).bind fun t => exec step t es

/-- The step relation of a partial step function. -/
def Steps (step : σ → ε → Option σ) : σ → ε → σ → Prop :=
  fun s e t => step s e = some t

theorem run_of_exec {step : σ → ε → Option σ} {s t : σ} {es : List ε}
    (done : exec step s es = some t) : Run (Steps step) s es t := by
  induction es generalizing s with
  | nil =>
      cases done
      exact Run.nil _
  | cons e es ih =>
      obtain ⟨m, first, rest⟩ := Option.bind_eq_some_iff.mp done
      exact Run.cons first (ih rest)

theorem exec_append {step : σ → ε → Option σ} {s u : σ} {es fs : List ε}
    (done : exec step s (es ++ fs) = some u) :
    ∃ t, exec step s es = some t ∧ exec step t fs = some u := by
  induction es generalizing s with
  | nil => exact ⟨s, rfl, done⟩
  | cons e es ih =>
      obtain ⟨m, first, rest⟩ := Option.bind_eq_some_iff.mp done
      obtain ⟨t, before, after⟩ := ih rest
      exact ⟨t, Option.bind_eq_some_iff.mpr ⟨m, first, before⟩, after⟩

/-- Where a fallible step faults exactly under a condition, a sequence of steps does not
end with the fault exactly when none of the steps that it reaches meets the condition. -/
theorem foldlM_ne_error_iff {δ : Type} {step : σ → ε → Except δ σ} {I : σ → Prop}
    {bad : σ → ε → Prop} {fault : δ} (faults : ∀ {s e}, I s → (step s e = .error fault ↔ bad s e))
    (keep : ∀ {s e t}, I s → step s e = .ok t → I t) {s : σ} (start : I s) (es : List ε) :
    es.foldlM step s ≠ .error fault ↔
      ∀ before e t, before ++ [e] <+: es → before.foldlM step s = .ok t → ¬bad t e := by
  induction es generalizing s with
  | nil =>
      constructor
      · intro _ before e t within
        exact absurd (List.prefix_nil.mp within) (List.append_ne_nil_of_right_ne_nil _ (by simp))
      · intro _ ended
        cases ended
  | cons e es ih =>
      rw [List.foldlM_cons]
      cases first : step s e with
      | error other =>
          constructor
          · intro ended before e' t within ran isBad
            cases before with
            | nil =>
                cases ran
                obtain ⟨rfl, -⟩ := List.cons_prefix_cons.mp within
                have both := first.symm.trans ((faults start).mpr isBad)
                cases both
                exact ended rfl
            | cons e'' before =>
                obtain ⟨rfl, -⟩ := List.cons_prefix_cons.mp within
                rw [List.foldlM_cons, first] at ran
                cases ran
          · intro never ended
            cases ended
            exact never [] e s (List.cons_prefix_cons.mpr ⟨rfl, List.nil_prefix⟩) rfl
              ((faults start).mp first)
      | ok t =>
          refine (ih (keep start first)).trans ⟨fun never before e' u within ran => ?_,
            fun never before e' u within ran => ?_⟩
          · cases before with
            | nil =>
                cases ran
                obtain ⟨rfl, -⟩ := List.cons_prefix_cons.mp within
                intro isBad
                have both := first.symm.trans ((faults start).mpr isBad)
                cases both
            | cons e'' before =>
                obtain ⟨rfl, inside⟩ := List.cons_prefix_cons.mp within
                rw [List.foldlM_cons, first] at ran
                exact never before e' u inside ran
          · refine never (e :: before) e' u (List.cons_prefix_cons.mpr ⟨rfl, within⟩) ?_
            rw [List.foldlM_cons, first]
            exact ran

/-- Every step that a sequence of fallible steps gets to has a property, which may speak of
the steps before it. -/
def Along {δ : Type} (step : σ → ε → Except δ σ) (s : σ) (es : List ε)
    (P : List ε → σ → ε → Prop) : Prop :=
  ∀ before e t, before ++ [e] <+: es → before.foldlM step s = .ok t → P before t e

section

variable {δ : Type} {step : σ → ε → Except δ σ} {J : List ε → σ → Prop}
  {P : List ε → σ → ε → Prop}

theorem foldlM_snoc {s u : σ} {es : List ε} {e : ε}
    (ran : (es ++ [e]).foldlM step s = .ok u) :
    ∃ t, es.foldlM step s = .ok t ∧ step t e = .ok u := by
  rw [List.foldlM_append] at ran
  cases first : es.foldlM step s with
  | error fault =>
      rw [first] at ran
      cases ran
  | ok t =>
      rw [first] at ran
      change [e].foldlM step t = .ok u at ran
      rw [List.foldlM_cons] at ran
      cases last : step t e with
      | error fault =>
          rw [last] at ran
          cases ran
      | ok v =>
          rw [last] at ran
          cases ran
          exact ⟨t, rfl, last⟩

/-- What steps with the property keep holds wherever they lead. -/
theorem Along.reached {s t : σ} {es before : List ε} (along : Along step s es P) (start : J [] s)
    (next : ∀ {es s e t}, J es s → P es s e → step s e = .ok t → J (es ++ [e]) t)
    (within : before <+: es) (ran : before.foldlM step s = .ok t) : J before t := by
  induction before using List.reverseRecOn generalizing t with
  | nil =>
      cases ran
      exact start
  | append_singleton before e ih =>
      obtain ⟨u, earlier, last⟩ := foldlM_snoc ran
      have here := ih ((List.prefix_append before [e]).trans within) earlier
      exact next here (along before e u within earlier) last

/-- Where a step has a property exactly when it meets a condition, all steps of a sequence
have the property exactly when all of them meet the condition. -/
theorem along_iff {ok : σ → ε → Prop} {s : σ} (start : J [] s)
    (keep : ∀ {es s e}, J es s → (P es s e ↔ ok s e))
    (next : ∀ {es s e t}, J es s → ok s e → step s e = .ok t → J (es ++ [e]) t) (es : List ε) :
    Along step s es P ↔ Along step s es fun _ => ok := by
  constructor
  · intro along before e t within ran
    have here := along.reached start (fun here has last => next here ((keep here).mp has) last)
      ((List.prefix_append before [e]).trans within) ran
    exact (keep here).mp (along before e t within ran)
  · intro along before e t within ran
    have here := along.reached start next ((List.prefix_append before [e]).trans within) ran
    exact (keep here).mpr (along before e t within ran)

end

theorem exec_get {step : σ → ε → Option σ} {s : σ} {es : List ε}
    (runs : (exec step s es).isSome = true) : exec step s es = some ((exec step s es).get runs) :=
  (Option.some_get runs).symm

end Reyao.Lib
