import Reyao.Lib.Resumable
import Reyao.Lib.Run

/-!
# Dialogues over two byte streams

Two parties speak in turn. Each hears with a `Machine` of its own, fed with the chunks its
reads deliver, until the machine stops; what it says then depends on what it has heard so
far, and after that it listens again from the start or hangs up. A chunk is some of what
is in flight, whatever message it belongs to, and what a machine leaves over is lost.

* `hears_of_run`: in every run a party is where its chunks take it, if they are followed
  to the end one message after another (`Hears`).
* `Talks.run`: where every message is one the other machine reads to its last item,
  nothing is lost however the messages are cut: the parties hear all they are to hear, in
  order, after a bounded number of steps.
-/

namespace Reyao.Lib

universe u v w

inductive Who : Type
  | caller
  | callee
  deriving DecidableEq

theorem Who.eq_or_eq {i j : Who} (apart : j ≠ i) (k : Who) : k = i ∨ k = j := by
  cases i <;> cases j <;> cases k <;> simp at apart ⊢

structure Party (α : Type u) (S : Type v) (R : Type w) : Type (max u v w) where
  machine : Machine α S R
  start : S
  start_waits : machine.step start [] = .wait
  /-- The most it takes in one read. -/
  room : Nat
  room_pos : 0 < room
  /-- What it says when it has heard this, and whether it listens after that. -/
  speaks : List R → Option (List α × Bool)

/-- Where a party is. -/
inductive Stand (α : Type u) (S : Type v) : Type (max u v)
  | hearing (s : S) (q : List α)
  | saying (msg : List α) (listens : Bool)
  | over

namespace Party

variable {α : Type u} {S : Type v} {R : Type w} (p : Party α S R)

def listen : Stand α S := .hearing p.start []

/-- It has heard this and goes on. -/
def turn (heard : List R) : Stand α S :=
  match p.speaks heard with
  | some (msg, listens) => .saying msg listens
  | none => .over

/-- It has said something. -/
def after (listens : Bool) : Stand α S := if listens then p.listen else .over

variable {p} {heard : List R} {msg : List α} {listens : Bool} {s : S} {q : List α}

theorem turn_saying (speaks : p.speaks heard = some (msg, listens)) :
    p.turn heard = .saying msg listens := by
  unfold turn
  rw [speaks]

theorem turn_over (speaks : p.speaks heard = none) : p.turn heard = .over := by
  unfold turn
  rw [speaks]

theorem speaks_of_turn (turn : p.turn heard = .saying msg listens) :
    p.speaks heard = some (msg, listens) := by
  cases speaks : p.speaks heard with
  | none =>
      rw [turn_over speaks] at turn
      cases turn
  | some said =>
      obtain ⟨msg', listens'⟩ := said
      rw [turn_saying speaks] at turn
      cases turn
      rfl

theorem silent_of_turn (turn : p.turn heard = .over) : p.speaks heard = none := by
  cases speaks : p.speaks heard with
  | none => rfl
  | some said =>
      obtain ⟨msg', listens'⟩ := said
      rw [turn_saying speaks] at turn
      cases turn

theorem turn_ne_hearing : p.turn heard ≠ .hearing s q := by
  intro there
  unfold turn at there
  split at there <;> cases there

/-- It begins to hear. -/
theorem settles_start : Settles p.machine p.start [] (.paused p.start) [] := .wait p.start_waits

end Party

/-- A party with what it has heard, the chunks it has read and what is in flight to it. -/
structure Side (α : Type u) (S : Type v) (R : Type w) : Type (max u v w) where
  stand : Stand α S
  heard : List R := []
  chunks : List (List α) := []
  coming : List α := []

section Steps

variable {α : Type u} {S : Who → Type v} {R : Who → Type w}

abbrev Dialogue (α : Type u) (S : Who → Type v) (R : Who → Type w) : Type (max u v w) :=
  (i : Who) → Side α (S i) (R i)

namespace Dialogue

inductive Event (α : Type u) : Type u
  /-- This much of what the party says goes out, or nothing. -/
  | sends (i : Who) (n : Nat)
  | sendFails (i : Who)
  | reads (i : Who) (chunk : List α)
  /-- A read delivers nothing any more. -/
  | readEnds (i : Who)

variable (P : (i : Who) → Party α (S i) (R i))

def begin_ (first : Who) : Dialogue α S R :=
  fun i => { stand := if i = first then (P i).turn [] else (P i).listen }

inductive Step (d : Dialogue α S R) : Event α → Dialogue α S R → Prop
  | sends {i j : Who} {n : Nat} {msg : List α} {listens : Bool} : j ≠ i →
      (d i).stand = .saying msg listens → 0 < n → n ≤ msg.length →
      Step d (.sends i n) (Function.update
        (Function.update d i { d i with stand := (P i).after listens })
        j { d j with coming := (d j).coming ++ msg.take n })
  | sendFails {i : Who} {msg : List α} {listens : Bool} : (d i).stand = .saying msg listens →
      Step d (.sendFails i) (Function.update d i { d i with stand := (P i).after listens })
  | waits {i : Who} {s s' : S i} {q q' chunk : List α} : (d i).stand = .hearing s q →
      chunk <+: (d i).coming → chunk ≠ [] → chunk.length ≤ (P i).room →
      Settles (P i).machine s (q ++ chunk) (.paused s') q' →
      Step d (.reads i chunk) (Function.update d i { d i with
        stand := .hearing s' q', chunks := (d i).chunks ++ [chunk]
        coming := (d i).coming.drop chunk.length })
  | hears {i : Who} {s : S i} {q left chunk : List α} {r : R i} : (d i).stand = .hearing s q →
      chunk <+: (d i).coming → chunk ≠ [] → chunk.length ≤ (P i).room →
      Settles (P i).machine s (q ++ chunk) (.stopped r) left →
      Step d (.reads i chunk) (Function.update d i { d i with
        stand := (P i).turn ((d i).heard ++ [r]), heard := (d i).heard ++ [r]
        chunks := (d i).chunks ++ [chunk]
        coming := (d i).coming.drop chunk.length })
  | readEnds {i : Who} {s : S i} {q : List α} : (d i).stand = .hearing s q →
      Step d (.readEnds i) (Function.update d i { d i with stand := .over })

end Dialogue

end Steps

/-! ## What a party makes of its chunks -/

section Hears

variable {α : Type u} {S : Type v} {R : Type w} {p : Party α S R}

/-- A party that had heard `before` and is fed chunks, message after message: what it has heard
then and where it is, if it has not been told that no more come. -/
inductive Hears (p : Party α S R) : List R → List (List α) → List R → Stand α S → Prop
  | waits {before : List R} {chunks : List (List α)} {s : S} {q : List α} :
      Drive p.machine p.start [] chunks (.paused s) q [] →
      Hears p before chunks before (.hearing s q)
  | turn {before : List R} {chunks : List (List α)} {r : R} {left : List α} :
      Drive p.machine p.start [] chunks (.stopped r) left [] →
      Hears p before chunks (before ++ [r]) (p.turn (before ++ [r]))
  | next {before heard : List R} {chunks rest : List (List α)} {r : R} {left msg : List α}
      {stand : Stand α S} :
      Drive p.machine p.start [] chunks (.stopped r) left rest →
      p.speaks (before ++ [r]) = some (msg, true) →
      Hears p (before ++ [r]) rest heard stand → Hears p before chunks heard stand
  | ends {before heard : List R} {chunks : List (List α)} {stand : Stand α S} :
      Hears p before chunks heard stand → Hears p before chunks heard .over

variable {before heard : List R} {chunks : List (List α)} {s s' : S} {q q' chunk left : List α}
  {msg : List α} {listens : Bool} {r : R}

theorem hears_nil (p : Party α S R) (before : List R) : Hears p before [] before p.listen :=
  .waits (.eof p.settles_start)

theorem Hears.waits_on (hears : Hears p before chunks heard (.hearing s q))
    (settled : Settles p.machine s (q ++ chunk) (.paused s') q') :
    Hears p before (chunks ++ [chunk]) heard (.hearing s' q') := by
  generalize there : Stand.hearing s q = stand at hears
  induction hears with
  | waits drive =>
      cases there
      exact .waits (drive.snoc settled)
  | turn => exact absurd there.symm Party.turn_ne_hearing
  | next drive speaks _ ih => exact .next (drive.append _) speaks (ih there)
  | ends => cases there

theorem Hears.hears_on (hears : Hears p before chunks heard (.hearing s q))
    (settled : Settles p.machine s (q ++ chunk) (.stopped r) left) :
    Hears p before (chunks ++ [chunk]) (heard ++ [r]) (p.turn (heard ++ [r])) := by
  generalize there : Stand.hearing s q = stand at hears
  induction hears with
  | waits drive =>
      cases there
      exact .turn (drive.snoc settled)
  | turn => exact absurd there.symm Party.turn_ne_hearing
  | next drive speaks _ ih => exact .next (drive.append _) speaks (ih there)
  | ends => cases there

theorem Hears.said (hears : Hears p before chunks heard (.saying msg listens)) :
    Hears p before chunks heard (p.after listens) := by
  generalize there : Stand.saying msg listens = stand at hears
  induction hears with
  | waits => cases there
  | turn drive =>
      have speaks := Party.speaks_of_turn there.symm
      cases listens with
      | true => exact .next drive speaks (hears_nil p _)
      | false => exact .ends (.turn drive)
  | next drive speaks _ ih => exact .next drive speaks (ih there)
  | ends => cases there

/-- A party that is still to begin, or one that has been fed its chunks. -/
def Fed (begins : Prop) (p : Party α S R) (side : Side α S R) : Prop :=
  (begins ∧ side.stand = p.turn [] ∧ side.heard = [] ∧ side.chunks = []) ∨
    Hears p [] side.chunks side.heard side.stand

theorem Fed.said {begins : Prop} {side : Side α S R} (fed : Fed begins p side)
    (saying : side.stand = .saying msg listens) :
    Hears p [] side.chunks side.heard (p.after listens) := by
  rcases fed with ⟨-, -, none_heard, none_read⟩ | hears
  · rw [none_heard, none_read]
    cases listens with
    | true => exact hears_nil p []
    | false => exact .ends (hears_nil p [])
  · rw [saying] at hears
    exact hears.said

theorem Fed.hears {begins : Prop} {side : Side α S R} (fed : Fed begins p side)
    (hearing : side.stand = .hearing s q) :
    Hears p [] side.chunks side.heard (.hearing s q) := by
  rcases fed with ⟨-, waits, -, -⟩ | hears
  · exact absurd (waits.symm.trans hearing) Party.turn_ne_hearing
  · rwa [hearing] at hears

end Hears

namespace Dialogue

variable {α : Type u} {S : Who → Type v} {R : Who → Type w}
  {P : (i : Who) → Party α (S i) (R i)} {d d' : Dialogue α S R} {e : Event α}

theorem Step.fed {begins : Who → Prop} (step : Step P d e d')
    (fed : ∀ i, Fed (begins i) (P i) (d i)) : ∀ i, Fed (begins i) (P i) (d' i) := by
  have one : ∀ {i : Who} {side : Side α (S i) (R i)}, Fed (begins i) (P i) side →
      ∀ k, Fed (begins k) (P k) (Function.update d i side k) := by
    intro i side here k
    rcases eq_or_ne k i with rfl | other
    · rwa [Function.update_self]
    · rw [Function.update_of_ne other]
      exact fed k
  cases step with
  | @sends i j n msg listens apart saying =>
      intro k
      rcases Who.eq_or_eq apart k with rfl | rfl
      · rw [Function.update_of_ne apart.symm, Function.update_self]
        exact Or.inr ((fed k).said saying)
      · rw [Function.update_self]
        exact fed k
  | sendFails saying => exact one (Or.inr ((fed _).said saying))
  | waits hearing _ _ _ settled => exact one (Or.inr (((fed _).hears hearing).waits_on settled))
  | hears hearing _ _ _ settled => exact one (Or.inr (((fed _).hears hearing).hears_on settled))
  | readEnds hearing => exact one (Or.inr ((fed _).hears hearing).ends)

/-- In every run a party that began by listening is where its chunks take it. -/
theorem hears_of_run {first i : Who} (listens : i ≠ first) {es : List (Event α)}
    (run : Run (Step P) (begin_ P first) es d) :
    Hears (P i) [] (d i).chunks (d i).heard (d i).stand := by
  have fed : ∀ k, Fed (k = first) (P k) (d k) := by
    refine run.invariant (I := fun d => ∀ k, Fed (k = first) (P k) (d k)) (fun k => ?_)
      fun fed step => step.fed fed
    unfold begin_ Fed
    dsimp only
    split
    · rename_i begins
      exact Or.inl ⟨begins, rfl, rfl, rfl⟩
    · exact Or.inr (hears_nil _ [])
  rcases fed i with ⟨begins, -⟩ | hears
  · exact absurd begins listens
  · exact hears

/-- The chunks of a party are reads it can have got. -/
theorem chunks_of_run {first : Who} {es : List (Event α)}
    (run : Run (Step P) (begin_ P first) es d) (i : Who) :
    ∀ chunk ∈ (d i).chunks, chunk ≠ [] ∧ chunk.length ≤ (P i).room := by
  refine run.invariant
    (I := fun d => ∀ i, ∀ chunk ∈ (d i).chunks, chunk ≠ [] ∧ chunk.length ≤ (P i).room)
    (fun i chunk member => absurd member List.not_mem_nil) (fun {d e d'} fits step => ?_) i
  have one : ∀ {k : Who} {side : Side α (S k) (R k)},
      (∀ chunk ∈ side.chunks, chunk ≠ [] ∧ chunk.length ≤ (P k).room) →
      ∀ i, ∀ chunk ∈ (Function.update d k side i).chunks,
        chunk ≠ [] ∧ chunk.length ≤ (P i).room := by
    intro k side here i
    rcases eq_or_ne i k with rfl | other
    · rwa [Function.update_self]
    · rw [Function.update_of_ne other]
      exact fits i
  have more : ∀ {k : Who} {chunk : List α}, chunk ≠ [] → chunk.length ≤ (P k).room →
      ∀ c ∈ (d k).chunks ++ [chunk], c ≠ [] ∧ c.length ≤ (P k).room := by
    intro k chunk some_items room c member
    rcases List.mem_append.mp member with old | new
    · exact fits k c old
    · rw [List.mem_singleton.mp new]
      exact ⟨some_items, room⟩
  cases step with
  | @sends i j n msg listens apart =>
      intro k
      rcases Who.eq_or_eq apart k with rfl | rfl
      · rw [Function.update_of_ne apart.symm, Function.update_self]
        exact fits k
      · rw [Function.update_self]
        exact fits k
  | sendFails => exact one (fits _)
  | waits _ _ some_items room => exact one (more some_items room)
  | hears _ _ some_items room => exact one (more some_items room)
  | readEnds => exact one (fits _)

/-! ## Talks that go through -/

variable (P) in
/-- From `heard`, with `i` to go on and the other party listening or gone, the parties get to
`final`: each message is one that the other's machine reads to its last item. The number
bounds the steps. -/
inductive Talks : Bool → ((i : Who) → List (R i)) → Who → ((i : Who) → List (R i)) → Nat → Prop
  | stops {listens : Bool} {heard : (i : Who) → List (R i)} {i : Who} :
      (P i).speaks (heard i) = none → Talks listens heard i heard listens.toNat
  | goes {heard final : (i : Who) → List (R i)} {i j : Who} {msg : List α} {listens : Bool}
      {r : R j} {n : Nat} : j ≠ i → (P i).speaks (heard i) = some (msg, listens) →
      Settles (P j).machine (P j).start msg (.stopped r) [] →
      Talks listens (Function.update heard j (heard j ++ [r])) j final n →
      Talks true heard i final (n + msg.length + 1)

/-- What goes out goes out whole, and a read ends only with the other party's departure. -/
def Calm (d : Dialogue α S R) : Event α → Prop
  | .sends i n => ∀ msg listens, (d i).stand = .saying msg listens → n = msg.length
  | .sendFails _ => False
  | .reads _ _ => True
  | .readEnds i => (d i).coming = [] ∧ ∀ j ≠ i, (d j).stand = .over

def heards (d : Dialogue α S R) (i : Who) : List (R i) := (d i).heard

variable (P) in
/-- How far a talk is, with a bound on the steps that are left: `i` goes on, or `j` hears what
`i` has said. -/
inductive Phase (final : (i : Who) → List (R i)) (d : Dialogue α S R) : Nat → Prop
  | turn {i j : Who} {listens : Bool} {n : Nat} : j ≠ i →
      (d i).stand = (P i).turn (d i).heard → (d j).stand = (P j).after listens →
      (d i).coming = [] → (d j).coming = [] → Talks P listens d.heards i final n →
      Phase final d n
  | hearing {i j : Who} {listens : Bool} {s : S j} {q : List α} {r : R j} {n : Nat} : j ≠ i →
      (d i).stand = (P i).after listens → (d i).coming = [] →
      (d j).stand = .hearing s q → (P j).machine.step s q = .wait →
      Settles (P j).machine s (q ++ (d j).coming) (.stopped r) [] →
      Talks P listens (Function.update d.heards j ((d j).heard ++ [r])) j final n →
      Phase final d (n + (d j).coming.length)

variable {final heard : (i : Who) → List (R i)} {first i j : Who} {n : Nat} {listens : Bool}

theorem phase_begin (apart : j ≠ first) (talks : Talks P true (fun _ => []) first final n) :
    Phase P final (begin_ P first) n := by
  have alone : ((begin_ P first) j).stand = (P j).after true := if_neg apart
  exact .turn apart (if_pos rfl) alone rfl rfl talks

theorem Talks.prefix_final (talks : Talks P listens heard i final n) (k : Who) :
    heard k <+: final k := by
  induction talks with
  | stops => exact List.prefix_rfl
  | @goes heard final i j msg listens r n apart speaks settled _ ih =>
      rcases eq_or_ne k j with rfl | other
      · rw [Function.update_self] at ih
        exact (List.prefix_append _ _).trans ih
      · rwa [Function.update_of_ne other] at ih

theorem Phase.prefix_final (phase : Phase P final d n) (k : Who) : (d k).heard <+: final k := by
  cases phase with
  | turn _ _ _ _ _ talks => exact talks.prefix_final k
  | @hearing i j listens s q r n _ _ _ _ _ _ talks =>
      have later := talks.prefix_final k
      rcases eq_or_ne k j with rfl | other
      · rw [Function.update_self] at later
        exact (List.prefix_append _ _).trans later
      · rwa [Function.update_of_ne other] at later

theorem after_ne_saying {p : Party α (S i) (R i)} {msg : List α} {goes_on : Bool} :
    p.after listens ≠ .saying msg goes_on := by
  intro there
  unfold Party.after at there
  split at there <;> cases there

theorem listens_of_after {p : Party α (S i) (R i)} {s : S i} {q : List α}
    (there : p.after listens = .hearing s q) : listens = true ∧ p.listen = .hearing s q := by
  cases listens with
  | false => cases there
  | true => exact ⟨rfl, there⟩

theorem heards_update {side : Side α (S i) (R i)} (same : side.heard = (d i).heard) :
    heards (Function.update d i side) = d.heards := by
  funext k
  unfold heards
  rcases eq_or_ne k i with rfl | other
  · rw [Function.update_self, same]
  · rw [Function.update_of_ne other]

theorem heards_hears {side : Side α (S i) (R i)} :
    heards (Function.update d i side) = Function.update d.heards i side.heard := by
  funext k
  unfold heards
  rcases eq_or_ne k i with rfl | other
  · rw [Function.update_self, Function.update_self]
  · rw [Function.update_of_ne other, Function.update_of_ne other]

/-- The message is on its way. -/
theorem Phase.sends {msg : List α} {goes_on : Bool} (apart : j ≠ i)
    (saying : (d i).stand = .saying msg goes_on) (turns : (d i).stand = (P i).turn (d i).heard)
    (waits : (d j).stand = (P j).after listens) (none_back : (d i).coming = [])
    (none_on : (d j).coming = []) (talks : Talks P listens d.heards i final n) :
    ∃ m < n, Phase P final (Function.update
      (Function.update d i { d i with stand := (P i).after goes_on })
      j { d j with coming := (d j).coming ++ msg.take msg.length }) m := by
  have speaks := Party.speaks_of_turn (turns.symm.trans saying)
  cases talks with
  | stops silent =>
      unfold heards at silent
      rw [silent] at speaks
      cases speaks
  | @goes _ _ _ j' msg' goes_on' r m apart' speaks' settled talks =>
      unfold heards at speaks'
      rw [speaks'] at speaks
      cases speaks
      obtain rfl : j' = j := (Who.eq_or_eq apart j').resolve_left apart'
      rw [none_on, List.nil_append, List.take_length]
      refine ⟨m + msg.length, by omega, ?_⟩
      have there := @Phase.hearing α S R P final
        (Function.update (Function.update d i { d i with stand := (P i).after goes_on })
          j' { d j' with coming := msg }) i j' goes_on (P j').start [] r m apart
      have same : heards (Function.update
          (Function.update d i { d i with stand := (P i).after goes_on })
          j' { d j' with coming := msg }) = d.heards := by
        refine (heards_update ?_).trans (heards_update rfl)
        rw [Function.update_of_ne apart]
      rw [Function.update_self, Function.update_of_ne apart.symm, Function.update_self, same]
        at there
      exact there rfl none_back waits (P j').start_waits settled talks

/-- A part of the message is read. -/
theorem Phase.waits {s s' : S j} {q q' chunk : List α} {r : R j} (apart : j ≠ i)
    (waits : (d i).stand = (P i).after listens) (none_back : (d i).coming = [])
    (part : chunk <+: (d j).coming) (some_items : chunk ≠ [])
    (settled : Settles (P j).machine s (q ++ chunk) (.paused s') q')
    (settles : Settles (P j).machine s (q ++ (d j).coming) (.stopped r) [])
    (talks : Talks P listens (Function.update d.heards j ((d j).heard ++ [r])) j final n) :
    ∃ m < n + (d j).coming.length, Phase P final (Function.update d j { d j with
      stand := .hearing s' q', chunks := (d j).chunks ++ [chunk]
      coming := (d j).coming.drop chunk.length }) m := by
  obtain ⟨rest, whole⟩ := part
  have fewer : rest.length < (d j).coming.length := by
    have some_length := List.length_pos_iff.mpr some_items
    rw [← whole, List.length_append]
    omega
  rw [← whole, ← List.append_assoc] at settles
  rw [← whole, List.drop_left]
  have there := @Phase.hearing α S R P final (Function.update d j { d j with
      stand := .hearing s' q', chunks := (d j).chunks ++ [chunk], coming := rest })
    i j listens s' q' r n apart
  have same : heards (Function.update d j { d j with
      stand := .hearing s' q', chunks := (d j).chunks ++ [chunk], coming := rest }) = d.heards :=
    heards_update rfl
  rw [Function.update_self, Function.update_of_ne apart.symm, same] at there
  rw [whole]
  exact ⟨n + rest.length, by omega, there waits none_back rfl settled.paused_wait
    (settled.after_pause settles) talks⟩

/-- The rest of the message is read. -/
theorem Phase.hears {s : S j} {q left chunk : List α} {r r' : R j} (apart : j ≠ i)
    (waits : (d i).stand = (P i).after listens) (none_back : (d i).coming = [])
    (part : chunk <+: (d j).coming) (some_items : chunk ≠ [])
    (settled : Settles (P j).machine s (q ++ chunk) (.stopped r') left)
    (settles : Settles (P j).machine s (q ++ (d j).coming) (.stopped r) [])
    (talks : Talks P listens (Function.update d.heards j ((d j).heard ++ [r])) j final n) :
    ∃ m < n + (d j).coming.length, Phase P final (Function.update d j { d j with
      stand := (P j).turn ((d j).heard ++ [r']), heard := (d j).heard ++ [r']
      chunks := (d j).chunks ++ [chunk], coming := (d j).coming.drop chunk.length }) m := by
  obtain ⟨rest, whole⟩ := part
  have some_length := List.length_pos_iff.mpr some_items
  rw [← whole, ← List.append_assoc] at settles
  obtain ⟨rfl, rfl⟩ := settles.part_stopped settled
  rw [← whole, List.drop_left]
  have there := @Phase.turn α S R P final (Function.update d j { d j with
      stand := (P j).turn ((d j).heard ++ [r']), heard := (d j).heard ++ [r']
      chunks := (d j).chunks ++ [chunk], coming := [] })
    j i listens n apart.symm
  rw [Function.update_self, Function.update_of_ne apart.symm, heards_hears] at there
  refine ⟨n, ?_, there rfl waits rfl none_back talks⟩
  rw [List.append_nil]
  omega

/-- What one step makes of the phase. -/
theorem Phase.step (phase : Phase P final d n) (ran : Guarded Calm (Step P) d e d') :
    ∃ m < n, Phase P final d' m := by
  obtain ⟨calm, ran⟩ := ran
  cases phase with
  | @turn i j listens n apart turns waits none_back none_on talks =>
      have none_coming : ∀ {k : Who} {chunk : List α}, chunk <+: (d k).coming → chunk = [] := by
        intro k chunk part
        rcases Who.eq_or_eq apart k with rfl | rfl
        · rwa [none_back, List.prefix_nil] at part
        · rwa [none_on, List.prefix_nil] at part
      cases ran with
      | @sends k l n' msg goes_on apart' saying some_items within =>
          rcases Who.eq_or_eq apart k with rfl | rfl
          · obtain rfl : l = j := (Who.eq_or_eq apart l).resolve_left apart'
            rw [calm msg goes_on saying]
            exact Phase.sends apart saying turns waits none_back none_on talks
          · exact absurd (waits.symm.trans saying) after_ne_saying
      | sendFails => exact calm.elim
      | waits _ part some_items => exact absurd (none_coming part) some_items
      | hears _ part some_items => exact absurd (none_coming part) some_items
      | @readEnds k s q hearing =>
          rcases Who.eq_or_eq apart k with rfl | rfl
          · exact absurd (turns.symm.trans hearing) Party.turn_ne_hearing
          · obtain ⟨rfl, -⟩ := listens_of_after (waits.symm.trans hearing)
            have silent := Party.silent_of_turn (turns.symm.trans (calm.2 i apart.symm))
            cases talks with
            | goes _ speaks =>
                unfold heards at speaks
                rw [silent] at speaks
                cases speaks
            | stops _ =>
                have there := @Phase.turn α S R P d.heards
                  (Function.update d k { d k with stand := .over }) i k false 0 apart
                have same : heards (Function.update d k { d k with stand := .over }) = d.heards :=
                  heards_update rfl
                rw [Function.update_self, Function.update_of_ne apart.symm, same] at there
                exact ⟨0, Nat.one_pos, there turns rfl none_back none_on (.stops silent)⟩
  | @hearing i j listens s q r n apart waits none_back hears pauses settles talks =>
      have none_for : ∀ {chunk : List α}, chunk <+: (d i).coming → chunk = [] := by
        intro chunk part
        rwa [none_back, List.prefix_nil] at part
      cases ran with
      | @sends k l n' msg goes_on apart' saying =>
          rcases Who.eq_or_eq apart k with rfl | rfl
          · exact absurd (waits.symm.trans saying) after_ne_saying
          · rw [hears] at saying
            cases saying
      | sendFails => exact calm.elim
      | @waits k s₁ s' q₁ q' chunk hearing part some_items room settled =>
          rcases Who.eq_or_eq apart k with rfl | rfl
          · exact absurd (none_for part) some_items
          · rw [hears] at hearing
            cases hearing
            exact Phase.waits apart waits none_back part some_items settled settles talks
      | @hears k s₁ q₁ left chunk r' hearing part some_items room settled =>
          rcases Who.eq_or_eq apart k with rfl | rfl
          · exact absurd (none_for part) some_items
          · rw [hears] at hearing
            cases hearing
            exact Phase.hears apart waits none_back part some_items settled settles talks
      | @readEnds k s₁ q₁ hearing =>
          obtain ⟨nothing, gone⟩ := calm
          rcases Who.eq_or_eq apart k with rfl | rfl
          · have over_ := gone j apart
            rw [hears] at over_
            cases over_
          · rw [nothing, List.append_nil] at settles
            cases (settles.unique (.wait pauses)).1

/-- Nothing moves where both have gone. -/
theorem Step.stands (step : Step P d e d') : ∃ k, (d k).stand ≠ .over := by
  have here : ∀ {k : Who} {stand : Stand α (S k)}, (d k).stand = stand → stand ≠ .over →
      ∃ k, (d k).stand ≠ .over := by
    intro k stand is other
    exact ⟨k, by rw [is]; exact other⟩
  cases step with
  | sends _ saying => exact here saying (by simp)
  | sendFails saying => exact here saying (by simp)
  | waits hearing => exact here hearing (by simp)
  | hears hearing => exact here hearing (by simp)
  | readEnds hearing => exact here hearing (by simp)

/-- Where a party waits for the rest of a message, a read delivers something. -/
theorem reads_some {s : S j} {q : List α} {r : R j} (hears : (d j).stand = .hearing s q)
    (pauses : (P j).machine.step s q = .wait)
    (settles : Settles (P j).machine s (q ++ (d j).coming) (.stopped r) []) :
    ∃ e d', Guarded Calm (Step P) d e d' := by
  have some_items : (d j).coming ≠ [] := by
    intro nothing
    rw [nothing, List.append_nil] at settles
    cases (settles.unique (.wait pauses)).1
  have split := List.take_append_drop (P j).room (d j).coming
  have part : (d j).coming.take (P j).room <+: (d j).coming := List.take_prefix _ _
  have some_taken : (d j).coming.take (P j).room ≠ [] := by
    rw [ne_eq, List.take_eq_nil_iff, not_or]
    exact ⟨Nat.ne_of_gt (P j).room_pos, some_items⟩
  rw [← split, ← List.append_assoc] at settles
  obtain ⟨v, left, settled⟩ := settles.of_append
  cases v with
  | paused s' =>
      exact ⟨.reads j _, _, trivial, .waits hears part some_taken (List.length_take_le _ _) settled⟩
  | stopped r' =>
      exact ⟨.reads j _, _, trivial, .hears hears part some_taken (List.length_take_le _ _) settled⟩

theorem Phase.moves (phase : Phase P final d n) {k : Who} (there : (d k).stand ≠ .over) :
    ∃ e d', Guarded Calm (Step P) d e d' := by
  cases phase with
  | @turn i j listens n apart turns waits none_back none_on talks =>
      cases talks with
      | stops silent =>
          have gone := turns.trans (Party.turn_over silent)
          cases listens with
          | true =>
              refine ⟨.readEnds j, _, ⟨none_on, fun k other => ?_⟩, .readEnds waits⟩
              rwa [(Who.eq_or_eq apart k).resolve_right other]
          | false =>
              rcases Who.eq_or_eq apart k with rfl | rfl
              · exact absurd gone there
              · exact absurd waits there
      | @goes _ _ _ j' msg goes_on r m apart' speaks settled =>
          have saying := turns.trans (Party.turn_saying speaks)
          have some_items : msg ≠ [] := by
            rintro rfl
            cases (settled.unique (.wait (P j').start_waits)).1
          refine ⟨.sends i msg.length, _, fun msg' goes_on' saying' => ?_,
            .sends apart saying (List.length_pos_iff.mpr some_items) (Nat.le_refl _)⟩
          rw [saying] at saying'
          cases saying'
          rfl
  | hearing _ _ _ hears pauses settles => exact reads_some hears pauses settles

theorem Phase.final_of_over (phase : Phase P final d n) (gone : ∀ k, (d k).stand = .over) (k : Who) :
    (d k).heard = final k := by
  cases phase with
  | @turn i j listens n apart turns waits none_back none_on talks =>
      cases talks with
      | stops => rfl
      | goes _ speaks =>
          have saying := turns.trans (Party.turn_saying speaks)
          rw [gone i] at saying
          cases saying
  | @hearing i j listens s q r n _ _ _ hears =>
      have over_ := gone j
      rw [hears] at over_
      cases over_

/-- Left to themselves the parties come to the end. -/
theorem Phase.exists_over (phase : Phase P final d n) :
    ∃ es d', Run (Guarded Calm (Step P)) d es d' ∧ ∀ k, (d' k).stand = .over := by
  induction n using Nat.strongRecOn generalizing d with
  | _ n ih =>
      rcases Classical.em (∀ k, (d k).stand = .over) with gone | there
      · exact ⟨[], d, .nil d, gone⟩
      · obtain ⟨k, there⟩ := not_forall.mp there
        obtain ⟨e, d', ran⟩ := phase.moves there
        obtain ⟨m, less, next⟩ := phase.step ran
        obtain ⟨es, d'', run, gone⟩ := ih m less next
        exact ⟨e :: es, d'', .cons ran run, gone⟩

/-- **A talk goes through.** However the messages are cut and whoever moves first, it takes at
most so many steps and stands still only when both parties have gone; what they have heard
until then is some of what they are to hear, and then all of it. -/
theorem Talks.run (talks : Talks P true (fun _ => []) first final n) (apart : j ≠ first)
    {es : List (Event α)} (run : Run (Guarded Calm (Step P)) (begin_ P first) es d) :
    es.length ≤ n ∧
    ((∃ e d', Guarded Calm (Step P) d e d') ↔ ∃ k, (d k).stand ≠ .over) ∧
    (∀ k, (d k).heard <+: final k) ∧
    ((∀ k, (d k).stand = .over) → ∀ k, (d k).heard = final k) := by
  have held : ∃ m, es.length + m ≤ n ∧ Phase P final d m := by
    refine run.historyInvariant (I := fun es d => ∃ m, es.length + m ≤ n ∧ Phase P final d m)
      ⟨n, Nat.le_of_eq (Nat.zero_add n), phase_begin apart talks⟩
      fun {es d e d'} held ran => ?_
    obtain ⟨m, bound, phase⟩ := held
    obtain ⟨m', less, next⟩ := phase.step ran
    refine ⟨m', ?_, next⟩
    rw [List.length_append, List.length_singleton]
    omega
  obtain ⟨m, bound, phase⟩ := held
  refine ⟨by omega, ⟨fun ⟨e, d', ran⟩ => ran.2.stands, fun ⟨k, there⟩ => phase.moves there⟩,
    phase.prefix_final, phase.final_of_over⟩

end Dialogue

end Reyao.Lib
