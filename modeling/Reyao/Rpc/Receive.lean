import Reyao.Rpc.RoundTrip

/-!
# Receiving a frame from a stream

`receive` takes the length word out of its buffer before it knows whether the
rest of the frame has arrived, and takes another one after the next read. The
result therefore depends on how the stream is cut: `receive_whole_frame_iff` says
for which cuts a frame is received.
-/

namespace Reyao.Rpc

open Lib Reyao.ByteArray

/-- What `receive` reports when the stream ends. -/
def closed : ErrMsg × Option Message := (⟨.kServerClosed, ascii "closed by peer"⟩, none)

/-- `receive` as a function of the reads and of the unread bytes. -/
def receiveBytes (pb : Protobuf) : List (Read 4096) → Bytes → ErrMsg × Option Message
  | [], _ => closed
  | r :: reads, q =>
      let q := q ++ r.data
      if (q.length : Int) > kHeaderLen + kMinMessageLen then
        let len := wordValue (q.take 4)
        let q := q.drop 4
        if len > kMaxMessageLen ∨ len < kMinMessageLen then
          (⟨.kInvalidLength, ascii "invalid length len= " ++ showInt len⟩, none)
        else if q.length ≥ toSize len then
          ((parseFrame pb len noError q).2, (parseFrame pb len noError q).1)
        else receiveBytes pb reads q
      else receiveBytes pb reads q

variable {pb : Protobuf} {msg : Message} {reads : List (Read 4096)}

/-- The loop answers as `receiveBytes` does, and never throws. -/
theorem receiveLoop_eq (pb : Protobuf) (host : ByteOrder) (reads : List (Read 4096))
    {fuel : Nat} (enough : reads.length < fuel) {ba : ByteArray} (wf : ba.Wf)
    (order : ba.endian = .big) :
    ∃ ba', receiveLoop pb host fuel (.ofReads reads) ba =
      .ok (receiveBytes pb reads ba.unread) ba' := by
  induction reads generalizing fuel ba with
  | nil =>
      obtain ⟨k, rfl⟩ : ∃ k, fuel = k + 1 := ⟨fuel - 1, by omega⟩
      obtain ⟨ba₁, read, -⟩ := SocketStream.read_nil wf (show 4096 < 2 ^ 31 by decide)
      rw [receiveLoop, bind_ok read]
      exact ⟨ba₁, rfl⟩
  | cons r reads ih =>
      rw [List.length_cons] at enough
      obtain ⟨k, rfl⟩ : ∃ k, fuel = k + 1 := ⟨fuel - 1, by omega⟩
      obtain ⟨ba₁, read, app⟩ := SocketStream.read_cons wf (by decide) r reads
      have order₁ : ba₁.endian = .big := app.endian_eq.trans order
      have positive : (r.data.length : Int) > 0 := by
        have := r.length_pos
        omega
      rw [receiveLoop, bind_ok read]
      simp only [receiveBytes, ← app.unread_eq]
      rw [if_pos positive, get_bind, app.wf.getReadSize_eq]
      by_cases ready : (ba₁.unread.length : Int) > kHeaderLen + kMinMessageLen
      · have long : 4 ≤ ba₁.unread.length := by
          rw [kMinMessageLen, kHeaderLen] at ready
          omega
        have read₂ : readInt32 host ba₁ =
            .ok (wordValue (ba₁.unread.take 4)) (ba₁.setReadPos (ba₁.readPos + 4)) := by
          have read := app.wf.readInt32 host long
          rwa [order₁] at read
        have con := app.wf.setReadPos long
        have wf₂ := con.wf app.wf
        have order₂ := con.endian_eq.trans order₁
        rw [if_pos ready, if_pos ready, bind_ok read₂, ← con.unread_eq]
        generalize wordValue (ba₁.unread.take 4) = len
        generalize ba₁.setReadPos (ba₁.readPos + 4) = ba₂ at wf₂ order₂
        by_cases bad : len > kMaxMessageLen ∨ len < kMinMessageLen
        · rw [if_pos bad, if_pos bad]
          exact ⟨_, rfl⟩
        · rw [if_neg bad, if_neg bad, get_bind, wf₂.getReadSize_eq]
          by_cases whole : ba₂.unread.length ≥ toSize len
          · rw [if_pos whole, if_pos whole]
            obtain ⟨n, rfl⟩ : ∃ n : Nat, len = n := ⟨len.toNat, by
              rw [kMinMessageLen, kHeaderLen] at bad
              omega⟩
            rw [toSize_natCast (by rw [kMaxMessageLen] at bad; omega)] at whole
            obtain ⟨ba₃, parsed⟩ := Parse_eq pb host noError wf₂.toBounded order₂ (by omega) whole
            rw [bind_ok parsed]
            exact ⟨ba₃, rfl⟩
          · rw [if_neg whole, if_neg whole]
            exact ih (by omega) wf₂ order₂
      · rw [if_neg ready, if_neg ready]
        exact ih (by omega) app.wf order₁

theorem receive_eq (pb : Protobuf) (host : ByteOrder) (reads : List (Read 4096)) :
    ∃ ba', receive pb host (.ofReads reads) = .ok (receiveBytes pb reads []) ba' := by
  have loop := receiveLoop_eq pb host reads (Nat.lt_succ_self _) (wf_new kInitSize) rfl
  rwa [unread_new] at loop

/-- While at most ten bytes have arrived, `receive` only waits. -/
theorem receiveBytes_wait (front : List (Read 4096)) {q : Bytes}
    (few : q.length + (bytesOf front).length ≤ 10) (reads : List (Read 4096)) :
    receiveBytes pb (front ++ reads) q = receiveBytes pb reads (q ++ bytesOf front) := by
  induction front generalizing q with
  | nil => rw [bytesOf_nil, List.append_nil, List.nil_append]
  | cons r front ih =>
      rw [bytesOf_cons, List.length_append] at few
      have wait : ¬(((q ++ r.data).length : Int) > kHeaderLen + kMinMessageLen) := by
        rw [List.length_append, kMinMessageLen, kHeaderLen]
        omega
      rw [List.cons_append, receiveBytes]
      simp only [if_neg wait]
      rw [ih (by rw [List.length_append]; omega), bytesOf_cons, List.append_assoc]

/-- Once more than ten bytes are there, a frame is received that is there as a whole. -/
theorem receiveBytes_frame (valid : msg.Valid pb)
    (fits : ((body msg).length : Int) ≤ kMaxMessageLen) {q rest : Bytes} {r : Read 4096}
    (whole : q ++ r.data = frame msg ++ rest) (long : 10 < (q ++ r.data).length)
    (reads : List (Read 4096)) :
    receiveBytes pb (r :: reads) q = (noError, some msg) := by
  have name_pos : 0 < msg.typeName.length := List.length_pos_iff.mpr valid.typeName_ne_nil
  have sizes := length_body msg
  have small : (body msg).length < 2 ^ 31 := by
    rw [kMaxMessageLen] at fits
    omega
  have ready : ((q ++ r.data).length : Int) > kHeaderLen + kMinMessageLen := by
    rw [kMinMessageLen, kHeaderLen]
    omega
  have head : (q ++ r.data).take 4 = word (body msg).length := by
    rw [whole, frame, List.append_assoc]
    exact List.take_left' (length_word _)
  have tail : (q ++ r.data).drop 4 = body msg ++ rest := by
    rw [whole, frame, List.append_assoc]
    exact List.drop_left' (length_word _)
  have good : ¬(((body msg).length : Int) > kMaxMessageLen ∨
      ((body msg).length : Int) < kMinMessageLen) := by
    rw [kMinMessageLen, kHeaderLen]
    omega
  have enough : (body msg ++ rest).length ≥ (body msg).length := by
    rw [List.length_append]
    omega
  rw [receiveBytes]
  simp only [head, tail, wordValue_word small,
    toSize_natCast (show (body msg).length < 2 ^ 64 by omega)]
  rw [if_pos ready, if_neg good, if_pos enough, parseFrame_body valid small noError rest]

/-- The codec accepts the frame of the message: the bytes that are buffered and those of
the reads hold it where `receive` looks for it. While at most ten bytes are there it
waits; when the frame that the next word announces is not there as a whole, the word is
lost. -/
inductive Carries (pb : Protobuf) (msg : Message) : List (Read 4096) → Bytes → Prop
  | wait {r : Read 4096} {reads : List (Read 4096)} {q : Bytes} :
      (q ++ r.data).length ≤ 10 → Carries pb msg reads (q ++ r.data) →
      Carries pb msg (r :: reads) q
  | late {r : Read 4096} {reads : List (Read 4096)} {q : Bytes} {len : Nat} :
      10 < (q ++ r.data).length → wordValue ((q ++ r.data).take 4) = len →
      kMinMessageLen ≤ len → len ≤ kMaxMessageLen → (q ++ r.data).length < 4 + len →
      Carries pb msg reads ((q ++ r.data).drop 4) → Carries pb msg (r :: reads) q
  | frame {r : Read 4096} {reads : List (Read 4096)} {q : Bytes} (rest : Bytes) :
      10 < (q ++ r.data).length → q ++ r.data = Rpc.frame msg ++ rest → msg.Valid pb →
      ((body msg).length : Int) ≤ kMaxMessageLen → Carries pb msg (r :: reads) q

theorem carries_of_receiveBytes {q : Bytes} {err : ErrMsg}
    (result : receiveBytes pb reads q = (err, some msg)) (ok : err.errcode = .kNoError) :
    Carries pb msg reads q := by
  induction reads generalizing q with
  | nil => cases result
  | cons r reads ih =>
      rw [receiveBytes] at result
      simp only at result
      by_cases ready : ((q ++ r.data).length : Int) > kHeaderLen + kMinMessageLen
      · rw [if_pos ready] at result
        rw [kMinMessageLen, kHeaderLen] at ready
        have more : 10 < (q ++ r.data).length := by omega
        generalize value : wordValue ((q ++ r.data).take 4) = len at result
        by_cases bad : len > kMaxMessageLen ∨ len < kMinMessageLen
        · rw [if_pos bad] at result
          cases result
        · rw [if_neg bad] at result
          obtain ⟨n, rfl⟩ : ∃ n : Nat, len = n := ⟨len.toNat, by
            rw [kMinMessageLen, kHeaderLen] at bad
            omega⟩
          rw [toSize_natCast (by rw [kMaxMessageLen] at bad; omega)] at result
          by_cases whole : ((q ++ r.data).drop 4).length ≥ n
          · rw [if_pos whole] at result
            obtain ⟨errEq, gotEq⟩ := Prod.mk.inj result
            obtain ⟨msg', same, -, valid, bytes⟩ :=
              body_of_parseFrame whole (Prod.ext gotEq errEq) ok
            cases same
            have size : (body msg).length = n := by
              rw [bytes, List.length_take]
              omega
            have width : ((q ++ r.data).take 4).length = 4 := by
              rw [List.length_take]
              omega
            refine .frame (((q ++ r.data).drop 4).drop n) more ?_ valid (by omega)
            rw [frame, size, word_of_wordValue width value, bytes, List.append_assoc,
              List.take_append_drop, List.take_append_drop]
          · rw [if_neg whole] at result
            rw [List.length_drop] at whole
            exact .late more value (by omega) (by omega) (by omega) (ih result)
      · rw [if_neg ready] at result
        rw [kMinMessageLen, kHeaderLen] at ready
        exact .wait (by omega) (ih result)

theorem receiveBytes_of_carries {q : Bytes} (carries : Carries pb msg reads q) :
    receiveBytes pb reads q = (noError, some msg) := by
  induction carries with
  | @wait r reads q few _ ih =>
      have wait : ¬(((q ++ r.data).length : Int) > kHeaderLen + kMinMessageLen) := by
        rw [kMinMessageLen, kHeaderLen]
        omega
      rw [receiveBytes]
      simp only [if_neg wait]
      exact ih
  | @late r reads q len more value least most short _ ih =>
      have ready : ((q ++ r.data).length : Int) > kHeaderLen + kMinMessageLen := by
        rw [kMinMessageLen, kHeaderLen]
        omega
      have good : ¬((len : Int) > kMaxMessageLen ∨ (len : Int) < kMinMessageLen) := by omega
      have part : ¬((q ++ r.data).drop 4).length ≥ len := by
        rw [List.length_drop]
        omega
      rw [kMaxMessageLen] at most
      rw [receiveBytes]
      simp only [value, toSize_natCast (show len < 2 ^ 64 by omega), if_pos ready, if_neg good,
        if_neg part]
      exact ih
  | @frame r reads q rest more bytes valid fits =>
      exact receiveBytes_frame valid fits bytes more reads

/-- A received message came in a frame that was there, length word included. -/
theorem Carries.length_le {q : Bytes} (carries : Carries pb msg reads q) :
    4 + (body msg).length ≤ (q ++ bytesOf reads).length := by
  induction carries with
  | @wait r reads q few _ ih =>
      rw [bytesOf_cons, ← List.append_assoc]
      exact ih
  | @late r reads q len more value least most short _ ih =>
      rw [List.length_append, List.length_drop] at ih
      rw [bytesOf_cons, ← List.append_assoc, List.length_append]
      omega
  | @frame r reads q rest more bytes valid fits =>
      have total := length_frame msg
      rw [bytesOf_cons, ← List.append_assoc, bytes, List.length_append, List.length_append]
      omega

/-- A frame that is received was complete at the first read that took the count
of bytes above ten. -/
theorem whole_of_receiveBytes {q : Bytes} {err : ErrMsg}
    (fits : ((body msg).length : Int) ≤ kMaxMessageLen) (few : q.length ≤ 10)
    (sent : q ++ bytesOf reads = frame msg)
    (result : receiveBytes pb reads q = (err, some msg)) (ok : err.errcode = .kNoError) :
    ∃ front last, reads = front ++ [last] ∧ q.length + (bytesOf front).length ≤ 10 ∧
      10 < (frame msg).length := by
  have total := length_frame msg
  have sizes := length_body msg
  have small : (body msg).length < 2 ^ 31 := by
    rw [kMaxMessageLen] at fits
    omega
  induction reads generalizing q with
  | nil => cases result
  | cons r reads ih =>
      rw [bytesOf_cons, ← List.append_assoc] at sent
      have parts : (q ++ r.data).length + (bytesOf reads).length = (frame msg).length := by
        rw [← sent]
        exact List.length_append.symm
      rw [receiveBytes] at result
      simp only at result
      by_cases ready : ((q ++ r.data).length : Int) > kHeaderLen + kMinMessageLen
      · rw [if_pos ready] at result
        rw [kMinMessageLen, kHeaderLen] at ready
        have head : (q ++ r.data).take 4 = word (body msg).length := by
          have front : (frame msg).take 4 = word (body msg).length :=
            List.take_left' (length_word _)
          have within : 4 ≤ (q ++ r.data).length := by omega
          rw [← front, ← sent, List.take_append_of_le_length within]
        have dropped : ((q ++ r.data).drop 4).length = (q ++ r.data).length - 4 :=
          List.length_drop
        by_cases whole : ((q ++ r.data).drop 4).length ≥ (body msg).length
        · -- nothing of the frame is left for a later read
          have none_left : reads = [] := by
            cases reads with
            | nil => rfl
            | cons r' reads =>
                have := r'.length_pos
                have more : (bytesOf (r' :: reads)).length =
                    r'.data.length + (bytesOf reads).length := by
                  rw [bytesOf_cons, List.length_append]
                omega
          subst none_left
          exact ⟨[], r, rfl, few, by omega⟩
        · -- the length word is gone and the rest is too short for the frame
          rw [head, wordValue_word small, toSize_natCast (by omega), if_neg whole] at result
          split at result
          · cases result
          · have bound := (carries_of_receiveBytes result ok).length_le
            rw [List.length_append] at bound
            omega
      · rw [if_neg ready] at result
        rw [kMinMessageLen, kHeaderLen] at ready
        obtain ⟨front, last, rfl, early, long⟩ := ih (by omega) sent result
        refine ⟨r :: front, last, rfl, ?_, long⟩
        rw [bytesOf_cons, List.length_append]
        rw [List.length_append] at early
        omega

/-- As many bytes as the frame of a message has hold that message only as its frame: had a
word been lost, the rest would be too short. -/
theorem Carries.eq_frame {q : Bytes} (carries : Carries pb msg reads q)
    (size : (q ++ bytesOf reads).length = (Rpc.frame msg).length) :
    q ++ bytesOf reads = Rpc.frame msg := by
  have total := length_frame msg
  induction carries with
  | @wait r reads q few _ ih =>
      rw [bytesOf_cons, ← List.append_assoc] at size ⊢
      exact ih size
  | @late r reads q len more value least most short carries ih =>
      have bound := carries.length_le
      rw [List.length_append, List.length_drop] at bound
      rw [bytesOf_cons, ← List.append_assoc, List.length_append] at size
      omega
  | @frame r reads q rest more bytes valid fits =>
      rw [bytesOf_cons, ← List.append_assoc, bytes, List.append_assoc] at size ⊢
      rw [List.length_append] at size
      have none_left : rest ++ bytesOf reads = [] := List.length_eq_zero_iff.mp (by omega)
      rw [none_left, List.append_nil]

/-- `receive`, on a host of either order, finds a message in as many bytes as its frame has
exactly when they are the frame, more than ten, and every read but the last ends within the
first ten. -/
theorem receive_frame_iff (host : ByteOrder) (valid : msg.Valid pb)
    (fits : ((body msg).length : Int) ≤ kMaxMessageLen)
    (size : (bytesOf reads).length = (frame msg).length) :
    (∃ err ba', receive pb host (.ofReads reads) = .ok (err, some msg) ba' ∧
        err.errcode = .kNoError) ↔
      bytesOf reads = frame msg ∧ 10 < (bytesOf reads).length ∧
        ∃ front last, reads = front ++ [last] ∧ (bytesOf front).length ≤ 10 := by
  obtain ⟨ba', received⟩ := receive_eq pb host reads
  rw [received]
  constructor
  · rintro ⟨err, ba'', result, ok⟩
    obtain ⟨same, -⟩ := EStateM.Result.ok.inj result
    have sent : [] ++ bytesOf reads = frame msg :=
      (carries_of_receiveBytes same ok).eq_frame (by rw [List.nil_append, size])
    obtain ⟨front, last, split, early, long⟩ :=
      whole_of_receiveBytes fits (Nat.zero_le _) sent same ok
    rw [List.length_nil, Nat.zero_add] at early
    exact ⟨sent, by rw [size]; exact long, front, last, split, early⟩
  · rintro ⟨sent, long, front, last, rfl, early⟩
    rw [bytesOf_append, bytesOf_cons, bytesOf_nil, List.append_nil] at sent long
    have whole : bytesOf front ++ last.data = frame msg ++ [] := by rw [sent, List.append_nil]
    refine ⟨noError, ba', ?_, rfl⟩
    rw [receiveBytes_wait front (by rw [List.length_nil, Nat.zero_add]; exact early),
      List.nil_append, receiveBytes_frame valid fits whole long]

/-- **When a sent frame is received.** The bytes `serializeToByteArray` produces,
cut into reads, come out of `receive` as the message that went in exactly when
the frame has more than ten bytes and every read but the last ends within its
first ten bytes. -/
theorem receive_whole_frame_iff (valid : msg.Valid pb)
    (fits : 4 + (msg.typeName.length : Int) + 1 + msg.payload.length ≤ kMaxMessageLen)
    {ba : ByteArray} (sent : serializeToByteArray .little msg fresh = .ok () ba)
    (cut : bytesOf reads = ba.unread) :
    (∃ err ba', receive pb .little (.ofReads reads) = .ok (err, some msg) ba' ∧
        err.errcode = .kNoError) ↔
      10 < (bytesOf reads).length ∧
        ∃ front last, reads = front ++ [last] ∧ (bytesOf front).length ≤ 10 := by
  have sizes := length_body msg
  have fits' : ((body msg).length : Int) ≤ kMaxMessageLen := by omega
  obtain ⟨ba₁, serialized, -, -, unread⟩ :=
    serialize_fresh (show (body msg).length < 2 ^ 31 by rw [kMaxMessageLen] at fits'; omega)
  rw [serialized] at sent
  cases sent
  rw [unread] at cut
  rw [receive_frame_iff .little valid fits' (by rw [cut])]
  exact and_iff_right cut

/-- The frame of `hello` in two reads: ten bytes, then the other eight. -/
def lateCut : List (Read 4096) :=
  [⟨(frame hello).take 10, by decide, by decide⟩, ⟨(frame hello).drop 10, by decide, by decide⟩]

theorem receive_late_cut :
    ∃ err ba', receive helloTypes .little (.ofReads lateCut) = .ok (err, some hello) ba' ∧
      err.errcode = .kNoError := by
  obtain ⟨ba, sent, -, -, unread⟩ := serialize_fresh (show (body hello).length < 2 ^ 31 by decide)
  exact (receive_whole_frame_iff hello_valid (by decide) sent (by rw [unread]; rfl)).mpr
    ⟨by decide, [_], _, rfl, by decide⟩

/-- The same frame, eleven bytes first. -/
def earlyCut : List (Read 4096) :=
  [⟨(frame hello).take 11, by decide, by decide⟩, ⟨(frame hello).drop 11, by decide, by decide⟩]

/-- The word after the length word is taken for a length. -/
theorem not_receive_early_cut :
    (∃ ba, serializeToByteArray .little hello fresh = .ok () ba ∧
      bytesOf earlyCut = ba.unread) ∧
    ¬ ∃ err ba', receive helloTypes .little (.ofReads earlyCut) = .ok (err, some hello) ba' ∧
      err.errcode = .kNoError := by
  obtain ⟨ba, sent, -, -, unread⟩ := serialize_fresh (show (body hello).length < 2 ^ 31 by decide)
  refine ⟨⟨ba, sent, by rw [unread]; rfl⟩, ?_⟩
  rintro ⟨err, ba', received, -⟩
  obtain ⟨ba'', computed⟩ := receive_eq helloTypes .little earlyCut
  have answer : receiveBytes helloTypes earlyCut [] =
      (⟨.kInvalidLength, ascii "invalid length len= 5"⟩, none) := by
    decide +kernel
  rw [computed, answer] at received
  cases received

end Reyao.Rpc
