import Reyao.Lib.Run

/-!
# First-in first-out queues

The abstract queue a byte buffer or a chain of buffers implements: an event
brings `inp e` in at the back and takes `out e` from the front. Over a run
nothing is lost, duplicated or reordered (`Fifo.conservation`).
-/

namespace Reyao.Lib

universe u w

variable {α : Type u} {ε : Type w}

/-- One event of a queue whose input and output are read off the event. -/
def Fifo.Step (inp out : ε → List α) (q : List α) (e : ε) (q' : List α) : Prop :=
  q ++ inp e = out e ++ q'

/-- What came in is what went out followed by what is still queued. -/
theorem Fifo.conservation {inp out : ε → List α} {q q' : List α} {es : List ε}
    (run : Run (Fifo.Step inp out) q es q') :
    q ++ es.flatMap inp = es.flatMap out ++ q' := by
  induction run with
  | nil => rw [List.flatMap_nil, List.flatMap_nil, List.append_nil, List.nil_append]
  | @snoc t u es e _ step ih =>
      have last : t ++ inp e = out e ++ u := step
      rw [List.flatMap_append, List.flatMap_append, List.flatMap_singleton,
        List.flatMap_singleton, ← List.append_assoc, ih, List.append_assoc, last,
        List.append_assoc]

end Reyao.Lib
