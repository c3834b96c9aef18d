import Reyao.ByteArrayAtomic

/-!
# Sizes that are cut

`writeString16` writes the size of its string modulo `2^16` and all of its bytes: a string of
`2^16` bytes or more is not read back, and neither is what was written behind it.

`addCapacity` takes a `size_t` as an `int`: from `2^31` bytes on it makes room for another
number of bytes, or takes room away.
-/

namespace Reyao

open Lib

/-! ## Strings with a length of two bytes -/

/-- A typed write call, with any string for `writeString16`. -/
inductive TypedWrite : Type
  | value (v : Value)
  | string16 (s : Bytes) (below : s.length < 2 ^ 31)

namespace TypedWrite

def write (host : ByteOrder) : TypedWrite → ByteArrayM Unit
  | value v => v.write host
  | string16 s _ => ByteArray.writeString16 host s

/-- The read call that matches. -/
def type : TypedWrite → ValueType
  | value v => v.type
  | string16 _ _ => .string16

/-- What the matching read call should return. -/
def datum : TypedWrite → Datum
  | value v => v.datum
  | string16 s _ => .string s

/-- The bytes that are written. -/
def image (order : ByteOrder) : TypedWrite → Bytes
  | value v => v.image order
  | string16 s _ => order.store 2 (s.length % 2 ^ 16) ++ s

/-- The size of a string of `writeString16` has two bytes. -/
def Short : TypedWrite → Prop
  | value _ => True
  | string16 s _ => s.length < 2 ^ 16

/-- Make the calls. -/
def writeAll (host : ByteOrder) : List TypedWrite → ByteArrayM Unit
  | [] => return
  | w :: ws => do
      w.write host
      writeAll host ws

/-- Make the matching read calls; what they return, in order. -/
def readAll (host : ByteOrder) : List TypedWrite → ByteArrayM (List Datum)
  | [] => return []
  | w :: ws => do
      let d ← w.type.read host
      let ds ← readAll host ws
      return d :: ds

end TypedWrite

open TypedWrite

namespace ByteArray

variable {ba : ByteArray}

/-- A typed write puts its bytes behind the unread ones. -/
theorem Wf.writeTyped (wf : ba.Wf) (host : ByteOrder) (w : TypedWrite) :
    ∃ ba', w.write host ba = .ok () ba' ∧ ba'.Wf ∧ ba'.endian = ba.endian ∧
      ba'.unread = ba.unread ++ w.image ba.endian := by
  have extended : ∃ ba', w.write host ba = .ok () ba' ∧ ba.Extended (w.image ba.endian) ba' := by
    cases w with
    | value v => exact wf.toBounded.writeValue host v (wf.makesRoom _)
    | string16 s below =>
        obtain ⟨mid, counted, extended⟩ := wf.toBounded.writeWord host (w := 2) (by decide)
          (by decide) (wf.makesRoom 2) (s.length % 2 ^ 16)
        obtain ⟨ba', wrote, whole⟩ := extended.write below
        exact ⟨ba', (bind_ok counted).trans wrote, whole⟩
  obtain ⟨ba', wrote, extended⟩ := extended
  exact ⟨ba', wrote, ⟨extended.bounded, extended.prepend wf.prepend⟩, extended.endian_eq,
    extended.unread_eq⟩

theorem Wf.writeAll (wf : ba.Wf) (host : ByteOrder) (ws : List TypedWrite) :
    ∃ ba', TypedWrite.writeAll host ws ba = .ok () ba' ∧ ba'.Wf ∧ ba'.endian = ba.endian ∧
      ba'.unread = ba.unread ++ ws.flatMap (TypedWrite.image ba.endian) := by
  induction ws generalizing ba with
  | nil => exact ⟨ba, rfl, wf, rfl, (List.append_nil _).symm⟩
  | cons w ws ih =>
      obtain ⟨mid, wrote, wf', order, unread⟩ := wf.writeTyped host w
      obtain ⟨ba', rest, wf'', order', unread'⟩ := ih wf'
      refine ⟨ba', (bind_ok wrote).trans rest, wf'', order'.trans order, ?_⟩
      rw [unread', unread, order, List.append_assoc, List.flatMap_cons]

/-- A string that is too long for its length is cut. -/
theorem Bounded.readLong (bounded : ba.Bounded) (host : ByteOrder) {s rest : Bytes}
    (front : ba.unread = ba.endian.store 2 (s.length % 2 ^ 16) ++ s ++ rest) :
    ∃ ba', ValueType.string16.read host ba = .ok (.string (s.take (s.length % 2 ^ 16))) ba' := by
  rw [List.append_assoc] at front
  have small : s.length % 2 ^ 16 < 2 ^ 16 := Nat.mod_lt _ (by decide)
  have le : s.length % 2 ^ 16 ≤ s.length := Nat.mod_le _ _
  have done := bounded.readPrefixed host front (by omega)
    (by rw [List.length_append]; omega) (by omega)
  rw [List.take_append_of_le_length le] at done
  exact ⟨_, bind_ok done⟩

/-- What was written is read back exactly when no string is too long for its length. -/
theorem Wf.readAll_iff (wf : ba.Wf) (host : ByteOrder) (ws : List TypedWrite)
    (queue : ba.unread = ws.flatMap (TypedWrite.image ba.endian)) :
    (∃ ba', TypedWrite.readAll host ws ba = .ok (ws.map datum) ba') ↔ ∀ w ∈ ws, w.Short := by
  induction ws generalizing ba with
  | nil => exact iff_of_true ⟨ba, rfl⟩ fun w member => absurd member List.not_mem_nil
  | cons w ws ih =>
      rw [List.flatMap_cons] at queue
      -- a value at the front is read back, and the others stay behind it
      have value : ∀ {v : Value}, v.type = w.type → v.datum = w.datum →
          v.image ba.endian = w.image ba.endian →
          ((∃ ba', TypedWrite.readAll host (w :: ws) ba = .ok ((w :: ws).map datum) ba') ↔
            ∀ w ∈ ws, w.Short) := by
        intro v type datum image
        rw [← image] at queue
        have le : (v.image ba.endian).length ≤ ba.unread.length := by
          rw [queue, List.length_append]
          exact Nat.le_add_right _ _
        have consumed := wf.toBounded.setReadPos le
        have first := wf.toBounded.readValue host (Or.inl rfl) queue
        rw [v.readAs_type, type, datum] at first
        have left : (ba.setReadPos (ba.readPos + (v.image ba.endian).length)).unread =
            ws.flatMap (TypedWrite.image ba.endian) := by
          rw [consumed.unread_eq, queue, List.drop_left]
        rw [← ih (consumed.wf wf) left]
        constructor
        · rintro ⟨ba', done⟩
          obtain ⟨d, mid, read, rest⟩ := bind_eq_ok done
          cases read.symm.trans first
          obtain ⟨ds, ba'', others, last⟩ := bind_eq_ok rest
          cases last
          exact ⟨_, others⟩
        · rintro ⟨ba', others⟩
          exact ⟨ba', (bind_ok first).trans (bind_ok others)⟩
      rw [List.forall_mem_cons]
      cases w with
      | value v => exact (value rfl rfl rfl).trans (and_iff_right trivial).symm
      | string16 s below =>
          by_cases short : s.length < 2 ^ 16
          · refine (value (v := .string16 s short) rfl rfl ?_).trans (and_iff_right short).symm
            rw [TypedWrite.image, Nat.mod_eq_of_lt short]
            rfl
          · refine iff_of_false ?_ fun all => short all.1
            rintro ⟨ba', done⟩
            obtain ⟨mid, cut⟩ := wf.toBounded.readLong host queue
            obtain ⟨d, mid', read, rest⟩ := bind_eq_ok done
            cases read.symm.trans cut
            obtain ⟨ds, ba'', -, last⟩ := bind_eq_ok rest
            injection last with same _
            injection same with head _
            have cut := congrArg List.length (Datum.string.inj head)
            rw [List.length_take] at cut
            omega

/-- `writeString16` fails, or it and the later writes are read back: the string and then the
later values. -/
def ReadsBack (host : ByteOrder) (s : Bytes) (later : List TypedWrite) (ba : ByteArray) : Prop :=
  (∃ e ba', writeString16 host s ba = .error e ba') ∨
    ∃ ba', (do
        writeString16 host s
        TypedWrite.writeAll host later
        let text ← readString16 host
        let values ← TypedWrite.readAll host later
        return (text, values) : ByteArrayM (Bytes × List Datum)) ba =
      .ok (s, later.map datum) ba'

/-- What the reads of `ReadsBack` find. -/
theorem Wf.readsBack (wf : ba.Wf) (empty : ba.unread = []) (host : ByteOrder) {s : Bytes}
    (below : s.length < 2 ^ 31) (later : List TypedWrite) :
    ∃ full : ByteArray, full.Wf ∧ full.unread =
        (TypedWrite.string16 s below :: later).flatMap (TypedWrite.image full.endian) ∧
      (ba.ReadsBack host s later ↔ ∃ ba', TypedWrite.readAll host (.string16 s below :: later) full =
        .ok ((TypedWrite.string16 s below :: later).map datum) ba') := by
  obtain ⟨mid, wrote, wf', order, unread⟩ := wf.writeTyped host (.string16 s below)
  obtain ⟨full, others, wf'', order', unread'⟩ := wf'.writeAll host later
  refine ⟨full, wf'', ?_, ?_⟩
  · rw [unread', unread, empty, List.nil_append, order', order, List.flatMap_cons]
  have never : ¬∃ e ba', writeString16 host s ba = .error e ba' := by
    rintro ⟨e, ba', failed⟩
    cases failed.symm.trans wrote
  have start : ∀ f : Unit → ByteArrayM (Bytes × List Datum),
      (do writeString16 host s; TypedWrite.writeAll host later; f () :
        ByteArrayM (Bytes × List Datum)) ba = f () full :=
    fun f => (bind_ok wrote).trans (bind_ok others)
  rw [ReadsBack, or_iff_right never, start fun _ => do
    let text ← readString16 host
    let values ← TypedWrite.readAll host later
    return (text, values)]
  constructor
  · rintro ⟨ba', done⟩
    obtain ⟨text, one, read, rest⟩ := bind_eq_ok done
    obtain ⟨values, two, read', last⟩ := bind_eq_ok rest
    cases last
    have first : ValueType.string16.read host full = .ok (.string s) one := bind_ok read
    exact ⟨_, (bind_ok first).trans (bind_ok read')⟩
  · rintro ⟨ba', done⟩
    obtain ⟨d, one, first, rest⟩ := bind_eq_ok done
    obtain ⟨text, one', read, made⟩ := bind_eq_ok first
    cases made
    obtain ⟨values, two, read', last⟩ := bind_eq_ok rest
    injection last with same is
    injection same with head tail
    cases head
    subst tail
    exact ⟨two, (bind_ok read).trans (bind_ok read')⟩

/-- **When strings with a length of two bytes are read back.** For every empty buffer in
working order, every string of fewer than `2^31` bytes and every sequence of typed writes
behind it, their strings just as short: `writeString16` fails, or `readString16` returns the
string and the later values come back too, if and only if no string written by
`writeString16` has `2^16` bytes or more. -/
theorem string16_read_back_iff (wf : ba.Wf) (empty : ba.unread = []) (host : ByteOrder)
    (s : Bytes) (below : s.length < 2 ^ 31) (later : List TypedWrite) :
    ba.ReadsBack host s later ↔ s.length < 2 ^ 16 ∧ ∀ w ∈ later, w.Short := by
  obtain ⟨full, wf', queue, reads⟩ := wf.readsBack empty host below later
  rw [reads, wf'.readAll_iff host _ queue, List.forall_mem_cons]
  exact Iff.rfl

/-- The number seven, in one byte. -/
def seven : TypedWrite := .value (.int .uint8 7 ⟨by decide, by decide⟩)

theorem hi_read_back : (new 1).ReadsBack .little [104, 105] [seven] := by
  refine (string16_read_back_iff (wf_new 1) (unread_new 1) .little _ (by decide) _).mpr
    ⟨by decide, fun w member => ?_⟩
  rw [List.mem_singleton.mp member]
  trivial

/-- A string of `2^16` bytes is read back as the empty one. -/
theorem not_string16_read_back :
    ¬fresh.ReadsBack .little (List.replicate (2 ^ 16) 97) [seven] := by
  intro back
  have length : (List.replicate (2 ^ 16) (97 : UInt8)).length = 2 ^ 16 := List.length_replicate
  have below : (List.replicate (2 ^ 16) (97 : UInt8)).length < 2 ^ 31 := by
    rw [length]
    decide
  obtain ⟨full, wf, queue, reads⟩ :=
    (wf_new kInitSize).readsBack (unread_new kInitSize) .little below [seven]
  obtain ⟨ba', done⟩ := reads.mp back
  obtain ⟨mid, cut⟩ := wf.toBounded.readLong .little queue
  obtain ⟨d, mid', first, rest⟩ := bind_eq_ok done
  cases first.symm.trans cut
  obtain ⟨ds, ba'', -, last⟩ := bind_eq_ok rest
  injection last with same _
  injection same with head _
  have none_left := congrArg List.length (Datum.string.inj head)
  rw [List.length_take, length] at none_left
  exact absurd none_left (by decide)

/-! ## Room for more bytes than an `int` counts -/

/-- After `addCapacity(n)` there is room for `n` bytes behind the same unread bytes: a copy of
`n` bytes to the write position stays inside the vector. -/
def GivesRoom (n : Nat) (ba : ByteArray) : Prop :=
  ∃ ba', addCapacity (toInt n) ba = .ok () ba' ∧ n ≤ ba'.getWriteSize ∧
    ba'.unread = ba.unread ∧ ba'.writePos + n ≤ ba'.buf.length

/-- A size that is an `int` from -8 on only moves the unread bytes down, if the vector has
room for `n` bytes. -/
theorem Wf.givesRoom_of_slide (wf : ba.Wf) {n : Nat}
    (slides : ¬ba.getWriteSize + ba.readPos < sizeAdd kCheapPrepend (toInt n)) :
    ba.GivesRoom n ↔ n + kCheapPrepend ≤ ba.getWriteSize + ba.readPos := by
  obtain ⟨ba', slid, appended, size⟩ := wf.addCapacity_slides slides
  have write := appended.wf.getWriteSize_eq
  have inside := appended.wf.inside
  constructor
  · rintro ⟨ba'', done, room, -⟩
    cases slid.symm.trans done
    omega
  · intro room
    refine ⟨ba', slid, by omega, ?_, by omega⟩
    rw [appended.unread_eq, List.append_nil]

/-- A negative size below -8 throws, or cuts the vector off before the write position. -/
theorem Wf.not_givesRoom_of_negative (wf : ba.Wf) (fits : ba.buf.length < 2 ^ 63) {n : Nat}
    (negative : toInt n < -8) : ¬ba.GivesRoom n := by
  have ordered := wf.ordered
  have inside := wf.inside
  have write := wf.getWriteSize_eq
  have least : -2 ^ 31 ≤ toInt n := by
    rw [toInt, Int.bmod_def]
    omega
  have grows : ba.getWriteSize + ba.readPos < sizeAdd kCheapPrepend (toInt n) := by
    rw [sizeAdd, kCheapPrepend]
    split <;> omega
  rintro ⟨ba', done, -, -, copies⟩
  rw [ByteArray.addCapacity, if_pos grows] at done
  generalize toInt n = size at done negative
  split at done
  · cases done
    have length : (ba.buf.take (ba.writePos + size).toNat ++ List.replicate
        ((ba.writePos + size).toNat - ba.buf.length) 0).length = (ba.writePos + size).toNat := by
      rw [List.length_append, List.length_take, List.length_replicate]
      omega
    rw [length] at copies
    change ba.writePos + n ≤ (ba.writePos + size).toNat at copies
    omega
  · cases done

/-- A size that is not negative gives room for as many bytes as it says. -/
theorem Wf.not_givesRoom_of_grow (wf : ba.Wf) {n k : Nat} (size : toInt n = k) (more : k < n)
    (full : ba.getWriteSize + ba.readPos < kCheapPrepend + k) : ¬ba.GivesRoom n := by
  obtain ⟨ba', grown, -, -, -, -, room⟩ := wf.toBounded.addCapacity_grow full
  rintro ⟨ba'', done, enough, -⟩
  rw [size] at done
  cases grown.symm.trans done
  omega

/-- **When `addCapacity` gives the room it was asked for.** For every buffer in working order
and every `n`: after `addCapacity(n)` there is room for `n` bytes and the unread bytes are the
same, if and only if `n` is below `2^31`, or the vector has the room already and `n`, as an
`int`, is not below -8. -/
theorem capacity_given_iff (wf : ba.Wf) (fits : ba.buf.length < 2 ^ 63) (n : Nat) :
    ba.GivesRoom n ↔
      n < 2 ^ 31 ∨ -8 ≤ toInt n ∧ n + kCheapPrepend ≤ ba.getWriteSize + ba.readPos := by
  have prepend := wf.prepend
  by_cases small : n < 2 ^ 31
  · refine iff_of_true ?_ (Or.inl small)
    obtain ⟨ba', made, appended, room⟩ := wf.addCapacity n
    have write := appended.wf.getWriteSize_eq
    have inside := appended.wf.inside
    refine ⟨ba', ?_, room, ?_, by omega⟩
    · rw [toInt_of_lt small]
      exact made
    · rw [appended.unread_eq, List.append_nil]
  rw [or_iff_right small]
  have high : toInt n < 2 ^ 31 := by
    rw [toInt, Int.bmod_def]
    omega
  by_cases negative : toInt n < -8
  · exact iff_of_false (wf.not_givesRoom_of_negative fits negative) fun both => by omega
  rw [and_iff_right (by omega)]
  by_cases grows : ba.getWriteSize + ba.readPos < sizeAdd kCheapPrepend (toInt n)
  · -- the size is not negative, or the prepend area alone would be enough
    have nonneg : 0 ≤ toInt n := by
      by_contra below
      rw [sizeAdd, kCheapPrepend, if_pos (by omega)] at grows
      rw [kCheapPrepend] at prepend
      omega
    obtain ⟨k, size⟩ := Int.eq_ofNat_of_zero_le nonneg
    rw [size, sizeAdd_natCast] at grows
    refine iff_of_false (wf.not_givesRoom_of_grow size (by omega) grows) ?_
    omega
  · exact wf.givesRoom_of_slide grows

/-- Room for a thousand bytes. -/
theorem new_gives_room : (new 8).GivesRoom 1000 :=
  (capacity_given_iff (wf_new 8) (by decide) 1000).mpr (Or.inl (by decide))

/-- `2^32 + 8` is taken for 8, and `2^32 - 16` takes 16 bytes away. -/
theorem not_capacity_given :
    (∃ ba', addCapacity (toInt (2 ^ 32 + 8)) (new 0) = .ok () ba' ∧ ba'.getWriteSize = 8) ∧
    ¬(new 0).GivesRoom (2 ^ 32 + 8) ∧
    (∃ ba', addCapacity (toInt (2 ^ 32 - 16)) (holding (List.replicate 24 7)) = .ok () ba' ∧
      ba'.unread = List.replicate 8 7) ∧
    ¬(holding (List.replicate 24 7)).GivesRoom (2 ^ 32 - 16) := by
  have grown : addCapacity (toInt (2 ^ 32 + 8)) (new 0) = .ok () (new 8) := rfl
  have cut : addCapacity (toInt (2 ^ 32 - 16)) (holding (List.replicate 24 7)) =
      .ok () { holding (List.replicate 8 7) with writePos := 32 } := rfl
  refine ⟨⟨_, grown, rfl⟩, ?_, ⟨_, cut, rfl⟩, ?_⟩
  · rintro ⟨ba', done, room, -⟩
    cases grown.symm.trans done
    exact absurd room (by decide)
  · rintro ⟨ba', done, -, same, -⟩
    cases cut.symm.trans done
    exact absurd same (by decide)

end ByteArray

end Reyao
