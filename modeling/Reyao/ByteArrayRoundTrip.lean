import Reyao.ByteArrayTyped

/-!
# Typed values come back in order

`Access` is a typed write or read call. However the reads are interleaved with the
writes, as long as they stay behind them, the buffer is a queue of values.
-/

namespace Reyao

open Lib

inductive Access : Type
  | write (v : Value)
  | read (t : ValueType)

namespace Access

def written? : Access → Option Value
  | write v => some v
  | read _ => none

def asked? : Access → Option ValueType
  | write _ => none
  | read t => some t

/-- The values written, in order. -/
def written (accesses : List Access) : List Value := accesses.filterMap written?

/-- The read calls made, in order. -/
def asked (accesses : List Access) : List ValueType := accesses.filterMap asked?

/-- Make the calls; what the read calls return, in order. -/
def perform (host : ByteOrder) : List Access → ByteArrayM (List Datum)
  | [] => return []
  | write v :: rest => do
      v.write host
      perform host rest
  | read t :: rest => do
      let d ← t.read host
      let ds ← perform host rest
      return d :: ds

/-- The reads stay behind the writes, and each is a call for the value it meets. -/
structure Paced (accesses : List Access) : Prop where
  behind : ∀ {pre}, pre <+: accesses → (asked pre).length ≤ (written pre).length
  fits : ∀ {i : Nat} {t : ValueType} {v : Value}, (asked accesses)[i]? = some t →
    (written accesses)[i]? = some v → v.Fits t

/-- The same from a state in which the values `q` are written and not yet read. -/
def Follows : List Value → List Access → Prop
  | _, [] => True
  | q, write v :: rest => Follows (q ++ [v]) rest
  | [], read _ :: _ => False
  | v :: q, read t :: rest => v.Fits t ∧ Follows q rest

theorem written_write (v : Value) (rest : List Access) :
    written (write v :: rest) = v :: written rest := rfl

theorem written_read (t : ValueType) (rest : List Access) :
    written (read t :: rest) = written rest := rfl

theorem asked_write (v : Value) (rest : List Access) : asked (write v :: rest) = asked rest := rfl

theorem asked_read (t : ValueType) (rest : List Access) :
    asked (read t :: rest) = t :: asked rest := rfl

theorem follows_of_behind {q : List Value} {accesses : List Access}
    (behind : ∀ pre, pre <+: accesses → (asked pre).length ≤ q.length + (written pre).length)
    (fits : ∀ (i : Nat) (t : ValueType) (v : Value), (asked accesses)[i]? = some t →
      (q ++ written accesses)[i]? = some v → v.Fits t) :
    Follows q accesses := by
  induction accesses generalizing q with
  | nil => trivial
  | cons access rest ih =>
      cases access with
      | write v =>
          refine ih (fun pre part => ?_) (fun i t v' call here => ?_)
          · have bound := behind (write v :: pre) (List.cons_prefix_cons.mpr ⟨rfl, part⟩)
            rw [asked_write, written_write, List.length_cons] at bound
            rw [List.length_append, List.length_singleton]
            omega
          · rw [List.append_assoc] at here
            exact fits i t v' call here
      | read t =>
          have first := behind [read t] (List.cons_prefix_cons.mpr ⟨rfl, List.nil_prefix⟩)
          cases q with
          | nil => exact absurd first (Nat.not_succ_le_zero 0)
          | cons v q =>
              refine ⟨fits 0 t v rfl rfl, ih (fun pre part => ?_) (fun i t' v' call here => ?_)⟩
              · have bound := behind (read t :: pre) (List.cons_prefix_cons.mpr ⟨rfl, part⟩)
                rw [asked_read, written_read, List.length_cons, List.length_cons] at bound
                omega
              · exact fits (i + 1) t' v' call here

theorem Paced.follows {accesses : List Access} (paced : Paced accesses) : Follows [] accesses := by
  refine follows_of_behind (fun pre part => ?_) (fun i t v call here => paced.fits call here)
  rw [List.length_nil, Nat.zero_add]
  exact paced.behind part

end Access

open Access

/-- The bytes of a row of values. -/
def images (order : ByteOrder) (vs : List Value) : Bytes := vs.flatMap (Value.image order)

/-- From a buffer that holds the images of the values `q`. -/
theorem ByteArray.Wf.perform {ba : ByteArray} (wf : ba.Wf) (host : ByteOrder) {q : List Value}
    {accesses : List Access} (follows : Follows q accesses)
    (queue : ba.unread = images ba.endian q) :
    ∃ ba', perform host accesses ba =
        .ok (List.zipWith Value.readAs (asked accesses) (q ++ written accesses)) ba' ∧
      ba'.Wf ∧
      ba'.unread = images ba.endian ((q ++ written accesses).drop (asked accesses).length) := by
  induction accesses generalizing ba q with
  | nil =>
      refine ⟨ba, rfl, wf, ?_⟩
      rw [queue]
      change images ba.endian q = images ba.endian (q ++ [])
      rw [List.append_nil]
  | cons access rest ih =>
      cases access with
      | write v =>
          obtain ⟨mid, wrote, extended⟩ :=
            wf.toBounded.writeValue host v (wf.makesRoom _)
          have wf' : mid.Wf := ⟨extended.bounded, extended.prepend wf.prepend⟩
          have queue' : mid.unread = images mid.endian (q ++ [v]) := by
            rw [extended.unread_eq, extended.endian_eq, queue, images, images,
              List.flatMap_append, List.flatMap_singleton]
          obtain ⟨ba', done, wf'', left⟩ := ih wf' follows queue'
          rw [List.append_assoc] at done left
          rw [extended.endian_eq] at left
          exact ⟨ba', (bind_ok wrote).trans done, wf'', left⟩
      | read t =>
          cases q with
          | nil => exact follows.elim
          | cons v q =>
              obtain ⟨fits, follows⟩ := follows
              have front : ba.unread = v.image ba.endian ++ images ba.endian q := queue
              have le : (v.image ba.endian).length ≤ ba.unread.length := by
                rw [front, List.length_append]
                exact Nat.le_add_right _ _
              have consumed := wf.toBounded.setReadPos le
              have queue' : (ba.setReadPos (ba.readPos + (v.image ba.endian).length)).unread =
                  images ba.endian q := by
                rw [consumed.unread_eq, front, List.drop_left]
              obtain ⟨ba', done, wf', left⟩ := ih (consumed.wf wf) follows queue'
              refine ⟨ba', ?_, wf', left⟩
              exact (bind_ok (wf.toBounded.readValue host fits front)).trans (bind_ok done)

/-- What the read call `t` may return for the value `v`. -/
structure Datum.Agrees (t : ValueType) (v : Value) (d : Datum) : Prop where
  /-- The matching call returns the value. -/
  same : t = v.type → d = v.datum
  /-- A call of the other signedness returns it modulo the size of the type. -/
  modulo : ∀ {t' type : IntType} {value : Int} {inRange}, t = .int t' →
    v = .int type value inRange → ∃ back, d = .int back ∧ t'.InRange back ∧
      back % (256 ^ type.width : Nat) = value % (256 ^ type.width : Nat)

theorem Value.Fits.agrees {t : ValueType} {v : Value} (fits : v.Fits t) :
    (v.readAs t).Agrees t v := by
  refine ⟨fun same => by rw [same, readAs_type], ?_⟩
  rintro t' type value inRange rfl rfl
  have width : t'.width = type.width := by
    rcases fits with same | ⟨t'', type', value', inRange', same, same', width⟩
    · cases same
      rfl
    · cases same
      cases same'
      exact width
  refine ⟨_, rfl, t'.inRange_ofPattern (by rw [width]; exact pattern_lt _ _), ?_⟩
  have back := t'.ofPattern_emod (pattern type.width value)
  rw [width] at back
  rw [back, pattern_emod, Int.emod_emod]

/-- **Typed values come back in order.** Whatever the order of the host, the setting of
the buffer and its initial size, and however reads that never overtake the writes are
interleaved with them, every call returns, and each read call returns the value whose
turn it is; when all have been read the buffer is empty. -/
theorem typed_values_round_trip (host : ByteOrder) (endian : Int) (initSize : Nat)
    {accesses : List Access} (paced : Paced accesses) :
    ∃ results ba, perform host accesses ((ByteArray.new initSize).setEndian host endian) =
        .ok results ba ∧
      results.length = (asked accesses).length ∧
      (∀ (i : Nat) (t : ValueType) (v : Value) (d : Datum), (asked accesses)[i]? = some t →
        (written accesses)[i]? = some v → results[i]? = some d → d.Agrees t v) ∧
      ((asked accesses).length = (written accesses).length → ba.getReadSize = 0) := by
  have fresh := ByteArray.wf_new initSize
  have wf : ((ByteArray.new initSize).setEndian host endian).Wf :=
    ⟨⟨fresh.ordered, fresh.inside⟩, fresh.prepend⟩
  have empty : ((ByteArray.new initSize).setEndian host endian).unread = [] :=
    ByteArray.unread_new initSize
  obtain ⟨ba, done, wf', left⟩ := wf.perform host paced.follows empty
  rw [List.nil_append] at done left
  refine ⟨_, ba, done, ?_, fun i t v d call here result => ?_, fun all => ?_⟩
  · have behind := paced.behind (List.prefix_refl accesses)
    rw [List.length_zipWith]
    exact Nat.min_eq_left behind
  · rw [List.getElem?_zipWith, call, here] at result
    cases result
    exact (paced.fits call here).agrees
  · rw [wf'.getReadSize_eq, left, all, List.drop_length]
    rfl

/-- A negative `int16_t`, read as a `uint16_t` before a string follows. -/
def mixedAccesses : List Access :=
  [.write (.int .int16 (-2) ⟨by decide, by decide⟩), .read (.int .uint16),
    .write (.string16 [104, 105] (by decide)), .read .string16]

theorem mixed_accesses_paced : Paced mixedAccesses := by
  refine ⟨fun {pre} part => ?_, fun {i t v} call here => ?_⟩
  · rw [← List.mem_inits] at part
    simp only [mixedAccesses, List.inits, List.map_cons, List.map_nil, List.mem_cons,
      List.not_mem_nil, or_false] at part
    rcases part with rfl | rfl | rfl | rfl | rfl <;> decide
  · rcases i with _ | _ | i
    · cases call
      cases here
      exact Or.inr ⟨_, _, _, _, rfl, rfl, rfl⟩
    · cases call
      cases here
      exact Or.inl rfl
    · cases call

/-- On a little-endian host, in a buffer of that order that has no room at first. -/
theorem mixed_accesses_round_trip :
    ∃ d d' ba, perform .little mixedAccesses ((ByteArray.new 0).setEndian .little 1234) =
        .ok [d, d'] ba ∧ (∃ back, d = .int back ∧ back % 65536 = 65534) ∧
      d' = .string [104, 105] ∧ ba.getReadSize = 0 := by
  obtain ⟨results, ba, done, length, agree, left⟩ :=
    typed_values_round_trip .little 1234 0 mixed_accesses_paced
  obtain ⟨d, d', rfl⟩ := List.length_eq_two.mp length
  obtain ⟨back, is, -, modulo⟩ := (agree 0 _ _ d rfl rfl rfl).modulo rfl rfl
  exact ⟨d, d', ba, done, ⟨back, is, modulo⟩, (agree 1 _ _ d' rfl rfl rfl).same rfl, left rfl⟩

end Reyao
