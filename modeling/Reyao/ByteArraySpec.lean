import Reyao.ByteArray

/-!
# What each buffer operation does

Callers of the buffer never look at its layout: from a well-formed buffer every
operation is described by what it does to the unread bytes. `Appended` is the
effect of the writers, `Consumed` the effect of the readers.
-/

namespace Reyao

open Lib

/-- A match lies inside the text. -/
theorem search_le {pat s : Bytes} {n : Nat} (found : search pat s = some n) :
    n + pat.length ≤ s.length := by
  induction s generalizing n with
  | nil =>
      rw [search] at found
      split at found
      · rename_i empty
        cases found
        rw [empty]
        exact le_refl _
      · cases found
  | cons c rest ih =>
      rw [search] at found
      split at found
      · rename_i here
        cases found
        rw [Nat.zero_add]
        exact (List.isPrefixOf_iff_prefix.mp here).length_le
      · obtain ⟨k, later, rfl⟩ := Option.map_eq_some_iff.mp found
        have bound := ih later
        rw [List.length_cons]
        omega

/-- The first match stays the first when the text goes on. -/
theorem search_append {pat s : Bytes} {n : Nat} (found : search pat s = some n)
    (nonempty : pat ≠ []) (more : Bytes) : search pat (s ++ more) = some n := by
  induction s generalizing n with
  | nil =>
      rw [search, if_neg nonempty] at found
      cases found
  | cons c rest ih =>
      rw [search] at found
      rw [List.cons_append, search]
      by_cases here : pat.isPrefixOf (c :: rest) = true
      · rw [if_pos here] at found
        have still : pat.isPrefixOf (c :: (rest ++ more)) = true :=
          List.isPrefixOf_iff_prefix.mpr
            ((List.isPrefixOf_iff_prefix.mp here).trans (List.prefix_append (c :: rest) more))
        rw [if_pos still, found]
      · rw [if_neg here] at found
        obtain ⟨k, later, rfl⟩ := Option.map_eq_some_iff.mp found
        have bound := search_le later
        -- a match at the head needs no more text than a later one
        have still : ¬(pat.isPrefixOf (c :: (rest ++ more)) = true) := by
          intro now
          refine here (List.isPrefixOf_iff_prefix.mpr ?_)
          refine List.prefix_of_prefix_length_le (List.isPrefixOf_iff_prefix.mp now)
            (List.prefix_append (c :: rest) more) ?_
          rw [List.length_cons]
          omega
        rw [if_neg still, ih later]
        rfl

namespace ByteArray

/-- `readPos_ <= writePos_ <= buf_.size()`: all a reader needs. -/
structure Bounded (ba : ByteArray) : Prop where
  ordered : ba.readPos ≤ ba.writePos
  inside : ba.writePos ≤ ba.buf.length

/-- `kCheapPrepend <= readPos_ <= writePos_ <= buf_.size()`: what a writer needs. -/
structure Wf (ba : ByteArray) : Prop extends Bounded ba where
  prepend : kCheapPrepend ≤ ba.readPos

/-- `ba'` is `ba` with `data` written behind its unread bytes. -/
structure Appended (ba : ByteArray) (data : Bytes) (ba' : ByteArray) : Prop where
  wf : ba'.Wf
  unread_eq : ba'.unread = ba.unread ++ data
  endian_eq : ba'.endian = ba.endian
  readPos_or : ba'.readPos = ba.readPos ∨ ba'.readPos = kCheapPrepend

/-- `ba'` is `ba` with its first `n` unread bytes taken. -/
structure Consumed (ba : ByteArray) (n : Nat) (ba' : ByteArray) : Prop where
  bounded : ba'.Bounded
  unread_eq : ba'.unread = ba.unread.drop n
  endian_eq : ba'.endian = ba.endian
  readPos_le : ba.readPos ≤ ba'.readPos

variable {ba ba' ba'' : ByteArray}

theorem wf_new (initSize : Nat) : (new initSize).Wf := by
  refine ⟨⟨le_refl _, ?_⟩, le_refl _⟩
  simp only [new, List.length_replicate]
  omega

theorem unread_new (initSize : Nat) : (new initSize).unread = [] := by
  apply List.drop_eq_nil_of_le
  rw [List.length_take]
  exact Nat.min_le_left _ _

theorem Bounded.length_unread (wf : ba.Bounded) : ba.unread.length = ba.writePos - ba.readPos := by
  have inside := wf.inside
  rw [unread, List.length_drop, List.length_take]
  omega

theorem Bounded.getReadSize_eq (wf : ba.Bounded) : ba.getReadSize = ba.unread.length := by
  rw [getReadSize, sizeSub_of_le wf.ordered, wf.length_unread]

theorem Bounded.getWriteSize_eq (wf : ba.Bounded) :
    ba.getWriteSize = ba.buf.length - ba.writePos := by
  rw [getWriteSize, sizeSub_of_le wf.inside]

/-- Reading at `readPos_` reads the unread bytes. -/
theorem Bounded.bytesAt_readPos (wf : ba.Bounded) {n : Nat} (le : n ≤ ba.unread.length) :
    ba.bytesAt ba.readPos n = ba.unread.take n := by
  have ordered := wf.ordered
  rw [wf.length_unread] at le
  rw [bytesAt, unread, List.drop_take, List.take_take]
  congr 1
  omega

theorem Appended.refl_nil (wf : ba.Wf) : ba.Appended [] ba :=
  ⟨wf, (List.append_nil _).symm, rfl, Or.inl rfl⟩

theorem Appended.trans {xs ys : Bytes} (first : ba.Appended xs ba')
    (second : ba'.Appended ys ba'') : ba.Appended (xs ++ ys) ba'' := by
  refine ⟨second.wf, ?_, second.endian_eq.trans first.endian_eq, ?_⟩
  · rw [second.unread_eq, first.unread_eq, List.append_assoc]
  · rcases second.readPos_or with same | slid
    · rw [same]
      exact first.readPos_or
    · exact Or.inr slid

/-! ## Making room -/

/-- Growing the vector keeps the unread bytes and leaves exactly the requested
room. -/
theorem Bounded.addCapacity_grow (bounded : ba.Bounded) {n : Nat}
    (full : ba.getWriteSize + ba.readPos < kCheapPrepend + n) :
    ∃ ba', addCapacity n ba = .ok () ba' ∧ ba'.Bounded ∧ ba'.unread = ba.unread ∧
      ba'.endian = ba.endian ∧ ba'.readPos = ba.readPos ∧ ba'.getWriteSize = n := by
  have inside := bounded.inside
  let grown : ByteArray := { ba with
    buf := ba.buf.take (ba.writePos + n) ++
      List.replicate (ba.writePos + n - ba.buf.length) 0 }
  have length : grown.buf.length = ba.writePos + n := by
    simp only [grown, List.length_append, List.length_take, List.length_replicate]
    omega
  have bounded' : grown.Bounded :=
    ⟨bounded.ordered, by rw [length]; exact Nat.le_add_right _ _⟩
  refine ⟨grown, ?_, bounded', ?_, rfl, rfl, ?_⟩
  · rw [addCapacity, if_pos (by rw [sizeAdd_natCast]; exact full), if_pos (by omega)]
    have len : ((ba.writePos : Int) + (n : Int)).toNat = ba.writePos + n := by omega
    rw [len]
  · rw [unread, unread]
    simp only [grown]
    rw [List.take_append_of_le_length (by rw [List.length_take]; omega), List.take_take]
    congr 2
    omega
  · rw [bounded'.getWriteSize_eq, length]
    simp only [grown]
    omega

theorem Wf.addCapacity_grow (wf : ba.Wf) {n : Nat}
    (full : ba.getWriteSize + ba.readPos < kCheapPrepend + n) :
    ∃ ba', addCapacity n ba = .ok () ba' ∧ ba.Appended [] ba' ∧ n ≤ ba'.getWriteSize := by
  obtain ⟨ba', grown, bounded, unread, order, same, size⟩ := wf.toBounded.addCapacity_grow full
  refine ⟨ba', grown, ⟨⟨bounded, by rw [same]; exact wf.prepend⟩, ?_, order, Or.inl same⟩,
    le_of_eq size.symm⟩
  rw [unread, List.append_nil]

/-- Sliding the unread bytes down keeps them and leaves all the room there is behind the
prepend area. -/
theorem Wf.addCapacity_slides (wf : ba.Wf) {size : Int}
    (room : ¬ba.getWriteSize + ba.readPos < sizeAdd kCheapPrepend size) :
    ∃ ba', addCapacity size ba = .ok () ba' ∧ ba.Appended [] ba' ∧
      kCheapPrepend + ba'.getWriteSize = ba.getWriteSize + ba.readPos := by
  have prepend := wf.prepend
  have ordered := wf.ordered
  have inside := wf.inside
  have length_unread := wf.length_unread
  have write := wf.getWriteSize_eq
  have moved : ba.bytesAt ba.readPos ba.unread.length = ba.unread := by
    rw [wf.bytesAt_readPos (le_refl _), List.take_length]
  let slid : ByteArray := { ba with
    buf := ba.buf.take kCheapPrepend ++ ba.unread ++ ba.buf.drop (kCheapPrepend + ba.unread.length)
    readPos := kCheapPrepend
    writePos := kCheapPrepend + ba.unread.length }
  have head : (ba.buf.take kCheapPrepend).length = kCheapPrepend := by
    rw [List.length_take]
    omega
  have length : slid.buf.length = ba.buf.length := by
    simp only [slid, List.length_append, head, List.length_drop]
    omega
  have wf' : slid.Wf := by
    refine ⟨⟨Nat.le_add_right _ _, ?_⟩, le_refl _⟩
    rw [length]
    simp only [slid]
    omega
  refine ⟨slid, ?_, ⟨wf', ?_, rfl, Or.inr rfl⟩, ?_⟩
  · rw [addCapacity, if_neg room, if_pos prepend]
    simp only [wf.getReadSize_eq, moved, slid]
  · have cut : (ba.buf.take kCheapPrepend ++ ba.unread).length =
        kCheapPrepend + ba.unread.length := by
      rw [List.length_append, head]
    rw [List.append_nil]
    change (List.take (kCheapPrepend + ba.unread.length)
      (ba.buf.take kCheapPrepend ++ ba.unread ++
        ba.buf.drop (kCheapPrepend + ba.unread.length))).drop kCheapPrepend = ba.unread
    rw [List.take_append_of_le_length (le_of_eq cut.symm), List.take_of_length_le (le_of_eq cut),
      List.drop_append_of_le_length (le_of_eq head.symm), List.drop_of_length_le (le_of_eq head),
      List.nil_append]
  · rw [wf'.getWriteSize_eq, length]
    simp only [slid]
    omega

theorem Wf.addCapacity_slide (wf : ba.Wf) {n : Nat}
    (room : kCheapPrepend + n ≤ ba.getWriteSize + ba.readPos) :
    ∃ ba', addCapacity n ba = .ok () ba' ∧ ba.Appended [] ba' ∧ n ≤ ba'.getWriteSize := by
  have slides : ¬ba.getWriteSize + ba.readPos < sizeAdd kCheapPrepend n := by
    rw [sizeAdd_natCast]
    exact Nat.not_lt.mpr room
  obtain ⟨ba', slid, appended, size⟩ := wf.addCapacity_slides slides
  exact ⟨ba', slid, appended, by omega⟩

/-- `addCapacity` from a well-formed buffer: the unread bytes stay and there is
room for `n` more. -/
theorem Wf.addCapacity (wf : ba.Wf) (n : Nat) :
    ∃ ba', addCapacity n ba = .ok () ba' ∧ ba.Appended [] ba' ∧ n ≤ ba'.getWriteSize := by
  rcases Nat.lt_or_ge (ba.getWriteSize + ba.readPos) (kCheapPrepend + n) with full | room
  · exact wf.addCapacity_grow full
  · exact wf.addCapacity_slide room

/-! ## Writers -/

/-- Bytes put into the write area become unread once the write position is moved
past them. -/
theorem Bounded.fillArea (bounded : ba.Bounded) {data : Bytes}
    (room : data.length ≤ ba.getWriteSize) :
    ∃ ba', fillArea ba.writePos data ba = .ok () ba' ∧ ba'.Bounded ∧
      ba'.unread = ba.unread ++ data ∧ ba'.endian = ba.endian ∧ ba'.readPos = ba.readPos ∧
      ba'.getWriteSize + data.length = ba.getWriteSize := by
  have ordered := bounded.ordered
  have inside := bounded.inside
  have size := bounded.getWriteSize_eq
  rw [size] at room
  have fits : ba.writePos + data.length ≤ ba.buf.length := by omega
  have head : (ba.buf.take ba.writePos).length = ba.writePos := by
    rw [List.length_take]
    omega
  have cut : (ba.buf.take ba.writePos ++ data).length = ba.writePos + data.length := by
    rw [List.length_append, head]
  let filled : ByteArray := { ba with
    buf := ba.buf.take ba.writePos ++ data ++ ba.buf.drop (ba.writePos + data.length)
    writePos := ba.writePos + data.length }
  have length : filled.buf.length = ba.buf.length := by
    simp only [filled, List.length_append, head, List.length_drop]
    omega
  have bounded' : filled.Bounded := by
    refine ⟨?_, ?_⟩
    · change ba.readPos ≤ ba.writePos + data.length
      omega
    · rw [length]
      exact fits
  refine ⟨filled, ?_, bounded', ?_, rfl, rfl, ?_⟩
  · rw [ByteArray.fillArea, bind_ok (by rw [copyIn, if_pos fits])]
    rfl
  · change (List.take (ba.writePos + data.length) (ba.buf.take ba.writePos ++ data ++
      ba.buf.drop (ba.writePos + data.length))).drop ba.readPos = ba.unread ++ data
    rw [List.take_append_of_le_length (le_of_eq cut.symm), List.take_of_length_le (le_of_eq cut),
      List.drop_append_of_le_length (by rw [head]; exact ordered)]
    rfl
  · rw [bounded'.getWriteSize_eq, length, size]
    simp only [filled]
    omega

theorem Wf.fillArea (wf : ba.Wf) {data : Bytes} (room : data.length ≤ ba.getWriteSize) :
    ∃ ba', fillArea ba.writePos data ba = .ok () ba' ∧ ba.Appended data ba' := by
  obtain ⟨ba', filled, bounded, unread, order, same, -⟩ := wf.toBounded.fillArea room
  exact ⟨ba', filled, ⟨bounded, by rw [same]; exact wf.prepend⟩, unread, order, Or.inl same⟩

/-- `write` of fewer than `2^31` bytes appends them. -/
theorem Wf.write (wf : ba.Wf) {data : Bytes} (small : data.length < 2 ^ 31) :
    ∃ ba', write data ba = .ok () ba' ∧ ba.Appended data ba' := by
  unfold ByteArray.write
  by_cases empty : data.length = 0
  · rw [List.length_eq_zero_iff] at empty
    subst empty
    exact ⟨ba, rfl, Appended.refl_nil wf⟩
  · rw [if_neg empty, toInt_of_lt small]
    obtain ⟨mid, grown, appended, room⟩ := wf.addCapacity data.length
    obtain ⟨ba', stored, appended'⟩ := appended.wf.fillArea room
    refine ⟨ba', ?_, ?_⟩
    · change (ByteArray.addCapacity _ >>= fun _ => get >>= fun now =>
        ByteArray.fillArea now.writePos data) ba = _
      rw [bind_ok grown]
      exact stored
    · simpa only [List.nil_append] using appended.trans appended'

/-- `getWriteArea(k)` makes room for `k` bytes and returns the write position. -/
theorem Wf.getWriteArea (wf : ba.Wf) {k : Nat} (small : k < 2 ^ 31) :
    ∃ ba', getWriteArea k ba = .ok ba'.writePos ba' ∧ ba.Appended [] ba' ∧
      k ≤ ba'.getWriteSize := by
  obtain ⟨ba', grown, appended, room⟩ := wf.addCapacity k
  refine ⟨ba', ?_, appended, room⟩
  rw [ByteArray.getWriteArea, toInt_of_lt small, bind_ok grown]
  rfl

/-! ## Writers that find the read position in the prepend area

`reset` and `writePrepend` leave the read position below `kCheapPrepend`. From there
`addCapacity` gets past its assertion only when it grows the vector. -/

/-- `addCapacity(n)` gets past its assertion. -/
def MakesRoom (ba : ByteArray) (n : Nat) : Prop :=
  kCheapPrepend ≤ ba.readPos ∨ ba.getWriteSize + ba.readPos < kCheapPrepend + n

/-- `ba'` is `ba` with `data` written behind its unread bytes, and the next write gets
past the assertion. -/
structure Extended (ba : ByteArray) (data : Bytes) (ba' : ByteArray) : Prop where
  bounded : ba'.Bounded
  unread_eq : ba'.unread = ba.unread ++ data
  endian_eq : ba'.endian = ba.endian
  prepend : kCheapPrepend ≤ ba.readPos → kCheapPrepend ≤ ba'.readPos
  room : ∀ n, ba'.MakesRoom n

theorem Wf.makesRoom (wf : ba.Wf) (n : Nat) : ba.MakesRoom n := Or.inl wf.prepend

theorem Bounded.wf (bounded : ba.Bounded) (prepend : kCheapPrepend ≤ ba.readPos) : ba.Wf :=
  ⟨bounded, prepend⟩

theorem Appended.extended {data : Bytes} (appended : ba.Appended data ba') :
    ba.Extended data ba' :=
  ⟨appended.wf.toBounded, appended.unread_eq, appended.endian_eq, fun _ => appended.wf.prepend,
    appended.wf.makesRoom⟩

theorem Extended.trans {xs ys : Bytes} (first : ba.Extended xs ba')
    (second : ba'.Extended ys ba'') : ba.Extended (xs ++ ys) ba'' := by
  refine ⟨second.bounded, ?_, second.endian_eq.trans first.endian_eq,
    fun prepend => second.prepend (first.prepend prepend), second.room⟩
  rw [second.unread_eq, first.unread_eq, List.append_assoc]

/-- Without room the assertion fails. -/
theorem addCapacity_asserts {n : Nat} (cramped : ¬ba.MakesRoom n) :
    ByteArray.addCapacity n ba = .error .assertFailed ba := by
  rw [MakesRoom, not_or] at cramped
  rw [ByteArray.addCapacity, if_neg (by rw [sizeAdd_natCast]; exact cramped.2), if_neg cramped.1]

/-- `addCapacity` that gets past its assertion. -/
theorem Bounded.addCapacity (bounded : ba.Bounded) {n : Nat} (room : ba.MakesRoom n) :
    ∃ ba', ByteArray.addCapacity n ba = .ok () ba' ∧ ba'.Bounded ∧ ba'.unread = ba.unread ∧
      ba'.endian = ba.endian ∧ n ≤ ba'.getWriteSize ∧
      (kCheapPrepend ≤ ba'.readPos ∨ ba.readPos < kCheapPrepend ∧
        ba'.readPos < kCheapPrepend ∧ ba'.getWriteSize = n) := by
  rcases Nat.lt_or_ge ba.readPos kCheapPrepend with low | prepend
  · have full := room.resolve_left (Nat.not_le.mpr low)
    obtain ⟨ba', grown, bounded', unread, order, same, size⟩ := bounded.addCapacity_grow full
    exact ⟨ba', grown, bounded', unread, order, le_of_eq size.symm,
      Or.inr ⟨low, by rw [same]; exact low, size⟩⟩
  · obtain ⟨ba', grown, appended, size⟩ := (bounded.wf prepend).addCapacity n
    have unread := appended.unread_eq
    rw [List.append_nil] at unread
    exact ⟨ba', grown, appended.wf.toBounded, unread, appended.endian_eq, size,
      Or.inl appended.wf.prepend⟩

/-- `write` that gets past the assertion. -/
theorem Bounded.write (bounded : ba.Bounded) {data : Bytes} (small : data.length < 2 ^ 31)
    (nonempty : data ≠ []) (room : ba.MakesRoom data.length) :
    ∃ ba', ByteArray.write data ba = .ok () ba' ∧ ba.Extended data ba' := by
  have some_bytes : data.length ≠ 0 := fun empty => nonempty (List.length_eq_zero_iff.mp empty)
  obtain ⟨mid, grown, bounded', unread', order', size, low⟩ := bounded.addCapacity room
  obtain ⟨ba', filled, bounded'', unread'', order'', same, left⟩ := bounded'.fillArea size
  refine ⟨ba', ?_, bounded'', ?_, order''.trans order', fun prepend => ?_, fun n => ?_⟩
  · unfold ByteArray.write
    rw [if_neg some_bytes, toInt_of_lt small]
    change (ByteArray.addCapacity _ >>= fun _ => get >>= fun now =>
      ByteArray.fillArea now.writePos data) ba = _
    rw [bind_ok grown]
    exact filled
  · rw [unread'', unread']
  · rw [same]
    exact low.resolve_right fun low => Nat.not_le.mpr low.1 prepend
  · rw [MakesRoom, same]
    rcases low with prepend | ⟨-, low, exactly⟩
    · exact Or.inl prepend
    · refine Or.inr ?_
      omega

/-- `write` that does not. -/
theorem write_asserts {data : Bytes} (small : data.length < 2 ^ 31) (nonempty : data ≠ [])
    (cramped : ¬ba.MakesRoom data.length) :
    ByteArray.write data ba = .error .assertFailed ba := by
  have some_bytes : data.length ≠ 0 := fun empty => nonempty (List.length_eq_zero_iff.mp empty)
  unfold ByteArray.write
  rw [if_neg some_bytes, toInt_of_lt small]
  exact bind_error (addCapacity_asserts cramped)

/-! ## Readers -/

theorem Consumed.wf {n : Nat} (consumed : ba.Consumed n ba') (wf : ba.Wf) : ba'.Wf :=
  ⟨consumed.bounded, le_trans wf.prepend consumed.readPos_le⟩

/-- Moving the read position over unread bytes takes them. -/
theorem Bounded.setReadPos (wf : ba.Bounded) {n : Nat} (le : n ≤ ba.unread.length) :
    ba.Consumed n (ba.setReadPos (ba.readPos + n)) := by
  have ordered := wf.ordered
  rw [wf.length_unread] at le
  refine ⟨⟨?_, wf.inside⟩, ?_, rfl, Nat.le_add_right _ _⟩
  · change ba.readPos + n ≤ ba.writePos
    omega
  · change (ba.buf.take ba.writePos).drop (ba.readPos + n) = ba.unread.drop n
    rw [unread, List.drop_drop]

/-- `read(n)` of available bytes returns the oldest `n` of them. -/
theorem Bounded.read_ok (wf : ba.Bounded) {n : Nat} (le : n ≤ ba.unread.length) :
    read n ba = .ok (ba.unread.take n) (ba.setReadPos (ba.readPos + n)) := by
  have ordered := wf.ordered
  have inside := wf.inside
  have size := wf.length_unread
  rw [read, if_neg (by rw [wf.getReadSize_eq]; omega), if_pos (by omega), wf.bytesAt_readPos le]

/-- `read(n)` of more than there is throws and changes nothing. -/
theorem Bounded.read_error (wf : ba.Bounded) {n : Nat} (short : ba.unread.length < n) :
    read n ba = .error (.outOfRange "have no enough data to read") ba := by
  rw [read, if_pos (by rw [wf.getReadSize_eq]; exact short)]

/-- `toString()` returns and takes everything. -/
theorem Bounded.toString (wf : ba.Bounded) :
    ∃ ba', toString ba = .ok ba.unread ba' ∧ ba.Consumed ba.unread.length ba' := by
  unfold ByteArray.toString
  by_cases empty : ba.getReadSize = 0
  · have nil : ba.unread = [] := by
      rwa [wf.getReadSize_eq, List.length_eq_zero_iff] at empty
    refine ⟨ba, ?_, wf, ?_, rfl, le_refl _⟩
    · rw [if_pos empty, nil]
    · rw [nil]
      rfl
  · rw [if_neg empty, wf.getReadSize_eq, wf.read_ok (le_refl _), List.take_length]
    exact ⟨_, rfl, wf.setReadPos (le_refl _)⟩

/-! ## Words

The order of the host drops out: a word is in the buffer in the buffer's own
order. -/

theorem Wf.writeWord (wf : ba.Wf) (host : ByteOrder) {w : Nat} (small : w < 2 ^ 31) (n : Nat) :
    ∃ ba', writeWord host w n ba = .ok () ba' ∧ ba.Appended (ba.endian.store w n) ba' := by
  rw [ByteArray.writeWord, ByteOrder.store_in_order]
  exact wf.write (by rw [ByteOrder.length_store]; exact small)

theorem Bounded.readWord (wf : ba.Bounded) (host : ByteOrder) {w : Nat} (le : w ≤ ba.unread.length) :
    readWord host w ba =
      .ok (ba.endian.load (ba.unread.take w)) (ba.setReadPos (ba.readPos + w)) := by
  rw [ByteArray.readWord, bind_ok (wf.read_ok le)]
  have width : (ba.unread.take w).length = w := by
    rw [List.length_take]
    omega
  change EStateM.Result.ok _ _ = _
  rw [ByteOrder.load_in_order ba.endian host width]

theorem Bounded.readInt32 (wf : ba.Bounded) (host : ByteOrder) (le : 4 ≤ ba.unread.length) :
    readInt32 host ba =
      .ok (signed 4 (ba.endian.load (ba.unread.take 4))) (ba.setReadPos (ba.readPos + 4)) := by
  rw [ByteArray.readInt32, bind_ok (wf.readWord host le)]
  rfl

/-- `writePrepend` puts its bytes in front of the unread ones. -/
theorem Bounded.writePrepend (bounded : ba.Bounded) {data : Bytes}
    (fits : data.length ≤ ba.readPos) :
    ∃ ba', writePrepend data ba = .ok () ba' ∧ ba'.Bounded ∧ ba'.unread = data ++ ba.unread ∧
      ba'.endian = ba.endian := by
  have ordered := bounded.ordered
  have inside := bounded.inside
  have head : (ba.buf.take (ba.readPos - data.length)).length = ba.readPos - data.length := by
    rw [List.length_take]
    omega
  have back : ba.readPos - data.length + data.length = ba.readPos := by omega
  refine ⟨{ ba with
    readPos := ba.readPos - data.length
    buf := ba.buf.take (ba.readPos - data.length) ++ data ++ ba.buf.drop ba.readPos },
    ?_, ⟨?_, ?_⟩, ?_, rfl⟩
  · rw [ByteArray.writePrepend, if_pos fits]
    change copyIn (ba.readPos - data.length) data (ba.setReadPos (ba.readPos - data.length)) = _
    rw [copyIn, back]
    exact if_pos (le_trans ordered inside)
  · change ba.readPos - data.length ≤ ba.writePos
    omega
  · simp only [List.length_append, head, List.length_drop]
    omega
  · change (List.take ba.writePos (ba.buf.take (ba.readPos - data.length) ++ data ++
      ba.buf.drop ba.readPos)).drop (ba.readPos - data.length) = data ++ ba.unread
    have cut : (ba.buf.take (ba.readPos - data.length) ++ data).length = ba.readPos := by
      rw [List.length_append, head, back]
    rw [List.take_append, List.take_of_length_le (by rw [cut]; exact ordered), cut,
      List.append_assoc, List.drop_append_of_le_length (le_of_eq head.symm),
      List.drop_of_length_le (le_of_eq head), List.nil_append, unread, List.drop_take]

end ByteArray

end Reyao
