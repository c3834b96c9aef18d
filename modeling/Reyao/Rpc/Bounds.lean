import Reyao.Lib.Ghost
import Reyao.Rpc.Receive

/-!
# What the decoder touches and what it waits for

`Parse` takes the length of the type name from the peer. `ParseNoted` is `Parse`
with every access to the buffer noted, where it begins and how many bytes it
covers, so that an access outside the frame shows.

`receive` asks for more input while its buffer has no more than ten bytes.
`receiveNoted` counts how often it asks.
-/

namespace Reyao.Rpc

open Lib Reyao.ByteArray

/-! ## The accesses of the decoder -/

/-- An access to the buffer: `count` bytes from `pos` on. A count is an `int` of
the source and could be negative. -/
structure Access : Type where
  pos : Nat
  count : Int
  deriving DecidableEq, Repr

/-- The access stays within `len` bytes from `start` on. -/
structure Access.Inside (start : Nat) (len : Int) (a : Access) : Prop where
  begins : start ≤ a.pos
  nonneg : 0 ≤ a.count
  ends : a.pos + a.count ≤ start + len

theorem Access.inside_mk {start pos : Nat} {count len : Int} (begins : start ≤ pos)
    (nonneg : 0 ≤ count) (ends : pos + count ≤ start + len) :
    Access.Inside start len ⟨pos, count⟩ :=
  ⟨begins, nonneg, ends⟩

/-- Note an access to `count` bytes from the read position on. -/
def touch (count : Int) : StateT (List Access) ByteArrayM Unit := do
  let ba ← (get : ByteArrayM ByteArray)
  modify (· ++ [⟨ba.readPos, count⟩])

/-- `Parse` behind the terminator of the name. -/
def parsePayload (pb : Protobuf) (name : Bytes) (payloadLen : Int) (errMsg : ErrMsg) :
    StateT (List Access) ByteArrayM (Option Message × ErrMsg) :=
  if pb.registered name then do
    let ba ← (get : ByteArrayM ByteArray)
    touch payloadLen
    let parsed := pb.parseFromArray name (ba.bytesAt ba.readPos payloadLen.toNat)
    if parsed.1 then return (some ⟨name, parsed.2⟩, errMsg)
    else return (some ⟨name, parsed.2⟩,
      ⟨.kParseError, ascii "message " ++ name ++ ascii " parse error"⟩)
  else return (none, ⟨.kUnknownMessageType, ascii "type name = " ++ name⟩)

/-- `Parse` behind the length of the name. -/
def parseName (pb : Protobuf) (nameLen len : Int) (errMsg : ErrMsg) :
    StateT (List Access) ByteArrayM (Option Message × ErrMsg) := do
  let ba ← (get : ByteArrayM ByteArray)
  touch (nameLen - 1)
  let name := ba.bytesAt ba.readPos (nameLen - 1).toNat
  (set (ba.setReadPos (ba.readPos + (nameLen - 1).toNat)) : ByteArrayM Unit)
  touch 1
  let terminator ← readInt8
  if terminator ≠ 0 then return (none, ⟨.kParseError, ascii "invalid type name"⟩)
  else parsePayload pb name (len - kHeaderLen - nameLen) errMsg

/-- `Parse(ByteArray& ba, int len, ErrMsg::SPtr errMsg)` with its accesses noted. -/
def ParseNoted (pb : Protobuf) (host : ByteOrder) (len : Int) (errMsg : ErrMsg) :
    StateT (List Access) ByteArrayM (Option Message × ErrMsg) := do
  touch 4
  let nameLen ← readInt32 host
  if nameLen < 2 ∨ nameLen > len - kHeaderLen then
    return (none, ⟨.kInvalidNameLength, ascii "invalid name length = " ++ showInt nameLen⟩)
  else parseName pb nameLen len errMsg

theorem Erases.touch {α : Type} {ghost : StateT (List Access) ByteArrayM α} {plain : ByteArrayM α}
    (count : Int) (rest : Erases ghost plain) :
    Erases (Rpc.touch count >>= fun _ => ghost) plain := by
  intro notes
  funext ba
  exact congrFun (rest (notes ++ [⟨ba.readPos, count⟩])) ba

/-- The notes apart, this is `Parse`. -/
theorem ParseNoted_erases (pb : Protobuf) (host : ByteOrder) (len : Int) (errMsg : ErrMsg) :
    Erases (ParseNoted pb host len errMsg) (Parse pb host len errMsg) := by
  unfold ParseNoted parseName parsePayload Parse
  apply Erases.touch
  apply Erases.bind (Erases.lift _)
  intro nameLen
  apply Erases.ite (Erases.pure _)
  apply Erases.bind (Erases.lift _)
  intro ba
  apply Erases.touch
  apply Erases.bind (Erases.lift _)
  intro _
  apply Erases.touch
  apply Erases.bind (Erases.lift _)
  intro terminator
  apply Erases.ite (Erases.pure _)
  apply Erases.ite
  · apply Erases.bind (Erases.lift _)
    intro ba'
    apply Erases.touch
    exact Erases.ite (Erases.pure _) (Erases.pure _)
  · exact Erases.pure _

section

variable {ω α β : Type} {ba ba' : ByteArray}

theorem liftM_bind_ok {x : ByteArrayM α} {f : α → StateT ω ByteArrayM β} {a : α}
    (first : x ba = .ok a ba') (notes : ω) :
    ((liftM x : StateT ω ByteArrayM α) >>= f).run notes ba = (f a).run notes ba' := by
  change (StateT.run (liftM x) notes >>= fun p => StateT.run (f p.1) p.2) ba = (f a).run notes ba'
  exact bind_ok (a := (a, notes)) (bind_ok first)

theorem touch_bind (count : Int) (f : Unit → StateT (List Access) ByteArrayM β)
    (log : List Access) (ba : ByteArray) :
    (touch count >>= f).run log ba = (f ()).run (log ++ [⟨ba.readPos, count⟩]) ba := rfl

end

/-- The accesses of a `Parse` that goes through, for a frame from `start` on: the length of
the name, the name, its terminator and the payload. -/
def accesses (start : Nat) (nameLen len : Int) : List Access :=
  [⟨start, 4⟩, ⟨start + 4, nameLen - 1⟩, ⟨start + 4 + (nameLen - 1).toNat, 1⟩,
    ⟨start + 4 + (nameLen - 1).toNat + 1, len - kHeaderLen - nameLen⟩]

theorem accesses_inside (start : Nat) {nameLen len : Int} (least : 2 ≤ nameLen)
    (most : nameLen ≤ len - 4) : ∀ a ∈ accesses start nameLen len, a.Inside start len := by
  intro a mem
  unfold accesses at mem
  simp only [List.mem_cons, List.not_mem_nil, or_false] at mem
  rcases mem with rfl | rfl | rfl | rfl
  · exact Access.inside_mk (by omega) (by omega) (by omega)
  · exact Access.inside_mk (by omega) (by omega) (by omega)
  · exact Access.inside_mk (by omega) (by omega) (by omega)
  · rw [kHeaderLen]
    exact Access.inside_mk (by omega) (by omega) (by omega)

/-- The length of the type name, as a buffer in the given order reads it off a frame. -/
def nameLength (order : ByteOrder) (frame : Bytes) : Int := signed 4 (order.load (frame.take 4))

/-- The bytes `Parse` takes for the type name. -/
def nameField (order : ByteOrder) (frame : Bytes) : Bytes :=
  (frame.drop 4).take (nameLength order frame - 1).toNat

/-- What a frame, its own length word apart, has to be: the announced name and its NUL are
there, the name is registered, and the rest parses as a message of that type. -/
structure WellFormed (pb : Protobuf) (order : ByteOrder) (frame : Bytes) : Prop where
  least : 2 ≤ nameLength order frame
  most : nameLength order frame ≤ frame.length - 4
  terminated : (frame.drop 4)[(nameLength order frame - 1).toNat]? = some 0
  registered : pb.registered (nameField order frame) = true
  parses : (pb.parseFromArray (nameField order frame)
    (frame.drop (4 + nameLength order frame).toNat)).1 = true

theorem take_one_eq_singleton {s : Bytes} {b : UInt8} : s.take 1 = [b] ↔ s[0]? = some b := by
  cases s with
  | nil => simp
  | cons c rest => simp

/-- Within the bounds on the length of the name, a frame is told from the bytes behind its
first word, whatever follows it. -/
theorem wellFormed_take_iff (pb : Protobuf) {order : ByteOrder} {q : Bytes} {n : Nat}
    (whole : n ≤ q.length) {nameLen : Int} (value : nameLength order (q.take n) = nameLen)
    (least : 2 ≤ nameLen) (most : nameLen ≤ n - 4) :
    WellFormed pb order (q.take n) ↔
      ((q.drop 4).drop (nameLen - 1).toNat).take 1 = [0] ∧
      pb.registered ((q.drop 4).take (nameLen - 1).toNat) = true ∧
      (pb.parseFromArray ((q.drop 4).take (nameLen - 1).toNat)
        ((((q.drop 4).drop (nameLen - 1).toNat).drop 1).take (n - kHeaderLen - nameLen).toNat)).1 =
        true := by
  subst value
  have size : (q.take n).length = n := by
    rw [List.length_take]
    omega
  have name : nameField order (q.take n) =
      (q.drop 4).take (nameLength order (q.take n) - 1).toNat := by
    rw [nameField, List.drop_take, List.take_take, Nat.min_eq_left (by omega)]
  have terminator : ((q.take n).drop 4)[(nameLength order (q.take n) - 1).toNat]? = some 0 ↔
      ((q.drop 4).drop (nameLength order (q.take n) - 1).toNat).take 1 = [0] := by
    rw [take_one_eq_singleton, List.getElem?_drop, List.getElem?_drop, List.getElem?_drop,
      List.getElem?_take_of_lt (by omega), Nat.add_zero]
  have payload : (q.take n).drop (4 + nameLength order (q.take n)).toNat =
      (((q.drop 4).drop (nameLength order (q.take n) - 1).toNat).drop 1).take
        (n - kHeaderLen - nameLength order (q.take n)).toNat := by
    have place : 4 + ((nameLength order (q.take n) - 1).toNat + 1) =
        (4 + nameLength order (q.take n)).toNat := by omega
    have count : (n - 4 - nameLength order (q.take n)).toNat =
        n - (4 + nameLength order (q.take n)).toNat := by omega
    rw [List.drop_take, List.drop_drop, List.drop_drop, kHeaderLen, place, count]
  rw [← name, ← payload, ← terminator]
  constructor
  · intro well
    exact ⟨well.terminated, well.registered, well.parses⟩
  · rintro ⟨terminated, registered, parses⟩
    exact ⟨least, by rw [size]; exact most, terminated, registered, parses⟩

/-! ### The parts of the decoder -/

/-- What a part of `Parse` comes to: it returns, has made the accesses `log`, and reports no
error just in the case `P`, and then there is a message. -/
def Reaches (part : StateT (List Access) ByteArrayM (Option Message × ErrMsg))
    (before : List Access) (ba : ByteArray) (log : List Access) (P : Prop) : Prop :=
  ∃ msg err ba', part.run before ba = .ok ((msg, err), log) ba' ∧
    (err.errcode = .kNoError ↔ P) ∧ (err.errcode = .kNoError → msg ≠ none)

/-- A part that reports an error. -/
theorem Reaches.of_error {before log : List Access} {ba : ByteArray} {P : Prop} {err : ErrMsg}
    {p : StateT (List Access) ByteArrayM (Option Message × ErrMsg)} {msg : Option Message}
    {ba' : ByteArray} (ran : p.run before ba = .ok ((msg, err), log) ba')
    (error : err.errcode ≠ .kNoError) (unfit : ¬P) : Reaches p before ba log P :=
  ⟨msg, err, ba', ran, ⟨fun ok => absurd ok error, fun fit => absurd fit unfit⟩,
    fun ok => absurd ok error⟩

/-- The payload is looked at if the name is registered. -/
theorem parsePayload_reaches (pb : Protobuf) (name : Bytes) {payloadLen : Int} {ba : ByteArray}
    (bounded : ba.Bounded) (inside : payloadLen.toNat ≤ ba.unread.length) (before : List Access) :
    ∃ log, log <+: before ++ [⟨ba.readPos, payloadLen⟩] ∧
      Reaches (parsePayload pb name payloadLen noError) before ba log
        (pb.registered name = true ∧
          (pb.parseFromArray name (ba.unread.take payloadLen.toNat)).1 = true) := by
  rw [parsePayload]
  by_cases known : pb.registered name = true
  · have got : (get : ByteArrayM ByteArray) ba = .ok ba ba := rfl
    have payload := bounded.bytesAt_readPos inside
    refine ⟨before ++ [⟨ba.readPos, payloadLen⟩], List.prefix_rfl, ?_⟩
    unfold Reaches
    rw [if_pos known, liftM_bind_ok got, touch_bind, payload]
    by_cases parsed : (pb.parseFromArray name (ba.unread.take payloadLen.toNat)).1 = true
    · rw [if_pos parsed]
      exact ⟨_, _, _, rfl, iff_of_true rfl ⟨known, parsed⟩, fun _ => Option.some_ne_none _⟩
    · rw [if_neg parsed]
      exact Reaches.of_error (p := pure _) rfl (by simp) fun fit => parsed fit.2
  · rw [if_neg known]
    exact ⟨before, List.prefix_append _ _,
      Reaches.of_error rfl (by simp) fun fit => known fit.1⟩

/-- The name and its terminator, and the payload if there is a terminator. -/
theorem parseName_reaches (pb : Protobuf) {nameLen len : Int} {ba : ByteArray}
    (bounded : ba.Bounded) (least : 2 ≤ nameLen) (most : nameLen ≤ len - 4)
    (whole : len - 4 ≤ ba.unread.length) (before : List Access) :
    ∃ log, log <+: before ++ [⟨ba.readPos, nameLen - 1⟩] ++
          [⟨ba.readPos + (nameLen - 1).toNat, 1⟩] ++
          [⟨ba.readPos + (nameLen - 1).toNat + 1, len - kHeaderLen - nameLen⟩] ∧
      Reaches (parseName pb nameLen len noError) before ba log
        ((ba.unread.drop (nameLen - 1).toNat).take 1 = [0] ∧
          pb.registered (ba.unread.take (nameLen - 1).toNat) = true ∧
          (pb.parseFromArray (ba.unread.take (nameLen - 1).toNat)
            (((ba.unread.drop (nameLen - 1).toNat).drop 1).take
              (len - kHeaderLen - nameLen).toNat)).1 = true) := by
  have name := bounded.bytesAt_readPos (show (nameLen - 1).toNat ≤ ba.unread.length by omega)
  have con := bounded.setReadPos (show (nameLen - 1).toNat ≤ ba.unread.length by omega)
  have got : (get : ByteArrayM ByteArray) ba = .ok ba ba := rfl
  unfold Reaches
  rw [parseName, liftM_bind_ok got, touch_bind]
  simp only [name]
  rw [liftM_bind_ok (show (set (ba.setReadPos (ba.readPos + (nameLen - 1).toNat)) :
    ByteArrayM Unit) ba = .ok () _ from rfl), touch_bind]
  have start₁ : (ba.setReadPos (ba.readPos + (nameLen - 1).toNat)).readPos =
      ba.readPos + (nameLen - 1).toNat := rfl
  have size₁ : (ba.setReadPos (ba.readPos + (nameLen - 1).toNat)).unread.length =
      ba.unread.length - (nameLen - 1).toNat := by
    rw [con.unread_eq, List.length_drop]
  rw [← con.unread_eq]
  generalize ba.setReadPos (ba.readPos + (nameLen - 1).toNat) = ba₁ at con size₁ start₁
  rw [← start₁]
  generalize before ++ [⟨ba.readPos, nameLen - 1⟩] ++ [⟨ba₁.readPos, 1⟩] = log
  obtain ⟨v, read, nul⟩ := readInt8_eq con.bounded (by omega)
  have con₁ := con.bounded.setReadPos (show 1 ≤ ba₁.unread.length by omega)
  rw [liftM_bind_ok read]
  by_cases terminated : v ≠ 0
  · rw [if_pos terminated]
    exact ⟨log, List.prefix_append _ _,
      Reaches.of_error (p := pure _) rfl (by simp) fun fit => nul.mp terminated fit.1⟩
  · rw [if_neg terminated]
    have nul_byte : ba₁.unread.take 1 = [0] := by
      by_contra other
      exact terminated (nul.mpr other)
    rw [← con₁.unread_eq]
    have room : (len - kHeaderLen - nameLen).toNat ≤
        (ba₁.setReadPos (ba₁.readPos + 1)).unread.length := by
      rw [con₁.unread_eq, List.length_drop, kHeaderLen]
      omega
    obtain ⟨log', within, msg, err, ba', ran, fit, found⟩ :=
      parsePayload_reaches pb (ba.unread.take (nameLen - 1).toNat) con₁.bounded room log
    exact ⟨log', within, msg, err, ba', ran, fit.trans (and_iff_right nul_byte).symm, found⟩

/-- `Parse` on the first `n` unread bytes returns, with its accesses and its verdict. -/
theorem ParseNoted_run (pb : Protobuf) (host : ByteOrder) {ba : ByteArray} (bounded : ba.Bounded)
    {n : Nat} (long : 6 ≤ n) (whole : n ≤ ba.unread.length) :
    ∃ msg err log ba', (ParseNoted pb host n noError).run [] ba = .ok ((msg, err), log) ba' ∧
      log <+: accesses ba.readPos (nameLength ba.endian (ba.unread.take n)) n ∧
      (∀ a ∈ log, a.Inside ba.readPos n) ∧
      (err.errcode = .kNoError ↔ WellFormed pb ba.endian (ba.unread.take n)) ∧
      (err.errcode = .kNoError → msg ≠ none) := by
  have four : 4 ≤ ba.unread.length := by omega
  have size : (ba.unread.take n).length = n := by
    rw [List.length_take]
    omega
  have value : nameLength ba.endian (ba.unread.take n) =
      signed 4 (ba.endian.load (ba.unread.take 4)) := by
    rw [nameLength, List.take_take, Nat.min_eq_left (by omega)]
  have con := bounded.setReadPos four
  rw [ParseNoted, touch_bind, liftM_bind_ok (bounded.readInt32 host four), ← value]
  by_cases bad : nameLength ba.endian (ba.unread.take n) < 2 ∨
      nameLength ba.endian (ba.unread.take n) > n - kHeaderLen
  · rw [if_pos bad]
    have unfit : ¬WellFormed pb ba.endian (ba.unread.take n) := by
      intro well
      have least := well.least
      have most := well.most
      rw [size] at most
      rw [kHeaderLen] at bad
      omega
    refine ⟨_, _, _, _, rfl, ⟨_, rfl⟩, ?_, iff_of_false (by simp) unfit, by simp⟩
    intro a mem
    rw [List.nil_append, List.mem_singleton] at mem
    subst mem
    exact Access.inside_mk (le_refl _) (by omega) (by omega)
  · rw [if_neg bad]
    rw [kHeaderLen] at bad
    generalize named : nameLength ba.endian (ba.unread.take n) = nameLen at bad
    have within : 2 ≤ nameLen ∧ nameLen ≤ n - 4 := by omega
    have well := wellFormed_take_iff pb whole named within.1 within.2
    rw [← con.unread_eq] at well
    have room : (n : Int) - 4 ≤ (ba.setReadPos (ba.readPos + 4)).unread.length := by
      rw [con.unread_eq, List.length_drop]
      omega
    obtain ⟨log, pre, msg, err, ba', ran, fit, found⟩ :=
      parseName_reaches pb con.bounded within.1 within.2 room [⟨ba.readPos, 4⟩]
    have all : log <+: accesses ba.readPos nameLen n := pre
    exact ⟨msg, err, log, ba', ran, all,
      fun a mem => accesses_inside ba.readPos within.1 within.2 a (all.mem mem),
      fit.trans well.symm, found⟩

/-- **`Parse` stays within its frame.** Whatever the bytes are, `Parse` of at least the
shortest and at most the readable length returns. Its accesses are the length of the name,
the name, the terminator and the payload, or the first few of these; each has a
non-negative length and lies within the first `len` bytes. It reports no error exactly for
a well-formed frame, and then there is a message. -/
theorem Parse_stays_within_frame (pb : Protobuf) (host : ByteOrder) {ba : ByteArray}
    (bounded : ba.Bounded) {len : Int} (least : kMinMessageLen ≤ len)
    (most : len ≤ ba.getReadSize) :
    ∃ msg err log ba', Parse pb host len noError ba = .ok (msg, err) ba' ∧
      (ParseNoted pb host len noError).run [] ba = .ok ((msg, err), log) ba' ∧
      log <+: accesses ba.readPos (nameLength ba.endian (ba.unread.take len.toNat)) len ∧
      (∀ a ∈ log, a.Inside ba.readPos len) ∧
      (err.errcode = .kNoError ↔ WellFormed pb ba.endian (ba.unread.take len.toNat)) ∧
      (err.errcode = .kNoError → msg ≠ none) := by
  rw [kMinMessageLen, kHeaderLen] at least
  rw [bounded.getReadSize_eq] at most
  obtain ⟨n, rfl⟩ : ∃ n : Nat, len = n := ⟨len.toNat, by omega⟩
  obtain ⟨msg, err, log, ba', noted, facts⟩ :=
    ParseNoted_run pb host bounded (show 6 ≤ n by omega) (by omega)
  refine ⟨msg, err, log, ba', ?_, noted, facts⟩
  rw [← ParseNoted_erases pb host n noError []]
  exact bind_ok noted

/-- A buffer that holds the frame of `hello` without its length word, and one byte more. -/
def helloBuffer : ByteArray := ⟨.big, 15, 0, body hello ++ [7]⟩

theorem Parse_stays_within_hello :
    ∃ msg err log ba', Parse helloTypes .little 14 noError helloBuffer = .ok (msg, err) ba' ∧
      (ParseNoted helloTypes .little 14 noError).run [] helloBuffer = .ok ((msg, err), log) ba' ∧
      (∀ a ∈ log, a.Inside 0 14) ∧ err.errcode = .kNoError := by
  obtain ⟨msg, err, log, ba', parsed, noted, -, inside, verdict, -⟩ :=
    Parse_stays_within_frame helloTypes .little
      (show helloBuffer.Bounded from ⟨by decide, by decide⟩)
      (show kMinMessageLen ≤ 14 by decide) (by decide)
  have well : WellFormed helloTypes .big ((body hello ++ [7]).take 14) :=
    ⟨by decide, by decide, by decide, by decide, rfl⟩
  exact ⟨msg, err, log, ba', parsed, noted, inside, verdict.mpr well⟩

/-! ## The reads of the receiver -/

/-- The `while` loop of `receive`, with the calls of `ss_.read` counted. -/
def receiveLoopNoted (pb : Protobuf) (host : ByteOrder) :
    Nat → SocketStream 4096 → StateT Nat ByteArrayM (ErrMsg × Option Message)
  | 0, _ => return (⟨.kServerClosed, ascii "closed by peer"⟩, none)
  | fuel + 1, ss => do
      modify (· + 1)
      let (rt, ss) ← ss.read
      if rt > 0 then do
        let ba ← (get : ByteArrayM ByteArray)
        if (ba.getReadSize : Int) > kHeaderLen + kMinMessageLen then do
          let len ← readInt32 host
          if len > kMaxMessageLen ∨ len < kMinMessageLen then
            return (⟨.kInvalidLength, ascii "invalid length len= " ++ showInt len⟩, none)
          else do
            let ba ← (get : ByteArrayM ByteArray)
            if ba.getReadSize ≥ toSize len then do
              let (msg, errMsg) ← Parse pb host len noError
              return (errMsg, msg)
            else receiveLoopNoted pb host fuel ss
        else receiveLoopNoted pb host fuel ss
      else return (⟨.kServerClosed, ascii "closed by peer"⟩, none)

/-- `receive(MessageSPtr& msg)`, with the calls of `ss_.read` counted. -/
def receiveNoted (pb : Protobuf) (host : ByteOrder) (ss : SocketStream 4096) :
    EStateM.Result Fault ByteArray ((ErrMsg × Option Message) × Nat) :=
  (receiveLoopNoted pb host (ss.incoming.length + 1) ss).run 0 ByteArray.fresh

/-- The count apart, this is the loop of `receive`. -/
theorem receiveLoopNoted_erases (pb : Protobuf) (host : ByteOrder) (fuel : Nat)
    (ss : SocketStream 4096) :
    Erases (receiveLoopNoted pb host fuel ss) (receiveLoop pb host fuel ss) := by
  induction fuel generalizing ss with
  | zero => exact Erases.pure _
  | succ fuel ih =>
      rw [receiveLoopNoted, receiveLoop]
      apply Erases.note
      apply Erases.bind (Erases.lift _)
      rintro ⟨rt, ss⟩
      apply Erases.ite _ (Erases.pure _)
      apply Erases.bind (Erases.lift _)
      intro ba
      apply Erases.ite _ (ih ss)
      apply Erases.bind (Erases.lift _)
      intro len
      apply Erases.ite (Erases.pure _)
      apply Erases.bind (Erases.lift _)
      intro ba'
      apply Erases.ite _ (ih ss)
      apply Erases.bind (Erases.lift _)
      rintro ⟨msg, err⟩
      exact Erases.pure _

theorem receive_of_receiveNoted {pb : Protobuf} {host : ByteOrder} {ss : SocketStream 4096}
    {answer : ErrMsg × Option Message} {count : Nat} {ba : ByteArray}
    (noted : receiveNoted pb host ss = .ok (answer, count) ba) :
    receive pb host ss = .ok answer ba := by
  rw [receive, ← receiveLoopNoted_erases pb host (ss.incoming.length + 1) ss 0]
  exact bind_ok noted

/-- The computation adds `least` or more to the count before it returns. -/
def Asks {α : Type} (least : Nat) (x : StateT Nat ByteArrayM α) : Prop :=
  ∀ count count' a ba ba',
    x.run count ba = .ok (a, count') ba' → count + least ≤ count'

namespace Asks

variable {α β : Type} {least : Nat}

theorem pure (a : α) : Asks 0 (pure a : StateT Nat ByteArrayM α) := by
  intro count count' b ba ba' ran
  cases ran
  exact le_refl _

theorem lift_bind {x : ByteArrayM β} {f : β → StateT Nat ByteArrayM α}
    (later : ∀ b, Asks least (f b)) : Asks least (liftM x >>= f) := by
  intro count count' a ba ba' ran
  cases first : x ba with
  | ok b ba₁ =>
      rw [liftM_bind_ok first] at ran
      exact later b _ _ _ _ _ ran
  | error fault ba₁ =>
      have stopped : (liftM x >>= f : StateT Nat ByteArrayM α).run count ba = .error fault ba₁ :=
        bind_error (bind_error first)
      rw [stopped] at ran
      cases ran

theorem ite {c : Prop} [Decidable c] {x y : StateT Nat ByteArrayM α} (yes : Asks least x)
    (no : Asks least y) : Asks least (if c then x else y) := by
  by_cases holds : c
  · rw [if_pos holds]
    exact yes
  · rw [if_neg holds]
    exact no

theorem count {x : StateT Nat ByteArrayM α} (rest : Asks least x) :
    Asks (least + 1) (modify (· + 1) >>= fun _ => x) := by
  intro count count' a ba ba' ran
  have counted : count + 1 + least ≤ count' := rest _ _ _ _ _ ran
  omega

theorem weaken {x : StateT Nat ByteArrayM α} (asks : Asks least x) : Asks 0 x := by
  intro count count' a ba ba' ran
  have counted : count + least ≤ count' := asks _ _ _ _ _ ran
  omega

end Asks

/-- A turn of the loop begins with a read, whatever later turns do. -/
theorem asks_turn (pb : Protobuf) (host : ByteOrder) {fuel : Nat}
    (later : ∀ ss, Asks 0 (receiveLoopNoted pb host fuel ss)) (ss : SocketStream 4096) :
    Asks 1 (receiveLoopNoted pb host (fuel + 1) ss) := by
  rw [receiveLoopNoted]
  apply Asks.count
  apply Asks.lift_bind
  rintro ⟨rt, ss⟩
  apply Asks.ite _ (Asks.pure _)
  apply Asks.lift_bind
  intro ba
  apply Asks.ite _ (later ss)
  apply Asks.lift_bind
  intro len
  apply Asks.ite (Asks.pure _)
  apply Asks.lift_bind
  intro ba'
  apply Asks.ite _ (later ss)
  apply Asks.lift_bind
  rintro ⟨msg, err⟩
  exact Asks.pure _

theorem asks_receiveLoopNoted (pb : Protobuf) (host : ByteOrder) (fuel : Nat)
    (ss : SocketStream 4096) : Asks 0 (receiveLoopNoted pb host fuel ss) := by
  induction fuel generalizing ss with
  | zero => exact Asks.pure _
  | succ fuel ih => exact (asks_turn pb host ih ss).weaken

theorem count_bind {α : Type} (rest : Unit → StateT Nat ByteArrayM α) (count : Nat)
    (ba : ByteArray) :
    ((modify (· + 1) : StateT Nat ByteArrayM Unit) >>= rest).run count ba =
      (rest ()).run (count + 1) ba := rfl

/-- With `reads` coming in, `receive` gives the verdict of `Parse` on `content` after one
call of `ss_.read`. -/
def AnswersAtOnce (pb : Protobuf) (host : ByteOrder) (len : Nat) (content : Bytes)
    (reads : List (Read 4096)) : Prop :=
  ∃ msg err ba ba', ba.unread = content ∧ ba.endian = .big ∧
    Parse pb host len noError ba = .ok (msg, err) ba' ∧
    receive pb host (.ofReads reads) = .ok (err, msg) ba' ∧
    receiveNoted pb host (.ofReads reads) = .ok ((err, msg), 1) ba'

/-- The first read of `receive`, up to the test on the number of bytes. -/
theorem receiveNoted_first (pb : Protobuf) (host : ByteOrder) (first : Read 4096)
    (more : List (Read 4096)) :
    ∃ ba, ba.Wf ∧ ba.endian = .big ∧ ba.unread = first.data ∧
      receiveNoted pb host (.ofReads (first :: more)) =
        (if (first.data.length : Int) > kHeaderLen + kMinMessageLen then do
          let len ← readInt32 host
          if len > kMaxMessageLen ∨ len < kMinMessageLen then
            return (⟨.kInvalidLength, ascii "invalid length len= " ++ showInt len⟩, none)
          else do
            let ba ← (get : ByteArrayM ByteArray)
            if ba.getReadSize ≥ toSize len then do
              let (msg, errMsg) ← Parse pb host len noError
              return (errMsg, msg)
            else receiveLoopNoted pb host (more.length + 1) (.ofReads more)
        else receiveLoopNoted pb host (more.length + 1) (.ofReads more)).run 1 ba := by
  obtain ⟨ba, read, app⟩ :=
    SocketStream.read_cons (show fresh.Wf from wf_new kInitSize) (by decide) first more
  have empty : fresh.unread = [] := unread_new kInitSize
  have unread : ba.unread = first.data := by
    rw [app.unread_eq, empty, List.nil_append]
  have positive : (first.data.length : Int) > 0 := by
    have := first.length_pos
    omega
  have got : (get : ByteArrayM ByteArray) ba = .ok ba ba := rfl
  have turn : receiveNoted pb host (.ofReads (first :: more)) =
      (receiveLoopNoted pb host (more.length + 1 + 1) (.ofReads (first :: more))).run 0
        fresh := rfl
  rw [receiveLoopNoted, count_bind, liftM_bind_ok read] at turn
  simp only at turn
  rw [if_pos positive, liftM_bind_ok got, app.wf.getReadSize_eq, unread] at turn
  exact ⟨ba, app.wf, app.endian_eq, unread, turn⟩

/-- Ten bytes or fewer are not looked at. -/
theorem not_answersAtOnce (pb : Protobuf) (host : ByteOrder) (len : Nat) (content : Bytes)
    {first : Read 4096} (short : first.data.length ≤ 10) (more : List (Read 4096)) :
    ¬ AnswersAtOnce pb host len content (first :: more) := by
  rintro ⟨msg, err, ba, ba', -, -, -, -, ran⟩
  obtain ⟨ba₁, -, -, -, turn⟩ := receiveNoted_first pb host first more
  have wait : ¬((first.data.length : Int) > kHeaderLen + kMinMessageLen) := by
    rw [kMinMessageLen, kHeaderLen]
    omega
  rw [turn, if_neg wait] at ran
  have twice := asks_turn pb host (asks_receiveLoopNoted pb host more.length) _ _ _ _ _ _ ran
  exact absurd twice (by decide)

/-- A frame that is there with more than ten bytes is parsed. -/
theorem answersAtOnce (pb : Protobuf) (host : ByteOrder) {len : Nat} {content : Bytes}
    (size : content.length = len) (above : kMinMessageLen < len) {first : Read 4096}
    (whole : first.data = word len ++ content) (more : List (Read 4096)) :
    AnswersAtOnce pb host len content (first :: more) := by
  have total : first.data.length = 4 + len := by
    rw [whole, List.length_append, length_word, size]
  have within := first.within
  rw [kMinMessageLen, kHeaderLen] at above
  obtain ⟨ba₁, wf, order₁, unread₁, turn⟩ := receiveNoted_first pb host first more
  have ready : (first.data.length : Int) > kHeaderLen + kMinMessageLen := by
    rw [total, kMinMessageLen, kHeaderLen]
    omega
  have four : 4 ≤ ba₁.unread.length := by
    rw [unread₁]
    omega
  have value : signed 4 (ba₁.endian.load (ba₁.unread.take 4)) = len := by
    rw [order₁, unread₁, whole, List.take_left' (length_word len)]
    exact wordValue_word (by omega)
  have read := wf.readInt32 host four
  have con := wf.setReadPos four
  have unread₂ : (ba₁.setReadPos (ba₁.readPos + 4)).unread = content := by
    rw [con.unread_eq, unread₁, whole, List.drop_left' (length_word len)]
  rw [value] at read
  generalize ba₁.setReadPos (ba₁.readPos + 4) = ba₂ at read con unread₂
  have good : ¬((len : Int) > kMaxMessageLen ∨ (len : Int) < kMinMessageLen) := by
    rw [kMinMessageLen, kHeaderLen, kMaxMessageLen]
    omega
  have enough : ba₂.getReadSize ≥ toSize len := by
    rw [con.bounded.getReadSize_eq, unread₂, toSize_natCast (by omega), size]
  have order₂ := con.endian_eq.trans order₁
  have least : kMinMessageLen ≤ len := by
    rw [kMinMessageLen, kHeaderLen]
    omega
  obtain ⟨ba₃, parsed⟩ :=
    Parse_eq pb host noError con.bounded order₂ least (by rw [unread₂, size])
  generalize parseFrame pb len noError ba₂.unread = verdict at parsed
  rcases verdict with ⟨msg, err⟩
  have got : (get : ByteArrayM ByteArray) ba₂ = .ok ba₂ ba₂ := rfl
  have answer : receiveNoted pb host (.ofReads (first :: more)) = .ok ((err, msg), 1) ba₃ := by
    rw [turn, if_pos ready, liftM_bind_ok read, if_neg good, liftM_bind_ok got, if_pos enough,
      liftM_bind_ok parsed]
    rfl
  exact ⟨msg, err, ba₂, ba₃, unread₂, order₂, parsed, receive_of_receiveNoted answer, answer⟩

/-- **When `receive` does not ask for more than it needs.** If the first read delivers a
whole frame and nothing else, `receive` answers without another read exactly when the
length is above the least admissible one, not from that one on: the test that lets it look
at the length word is strict. -/
theorem receive_at_once_iff (pb : Protobuf) (host : ByteOrder) {len : Nat} {content : Bytes}
    (size : content.length = len) {first : Read 4096}
    (whole : first.data = word len ++ content) (more : List (Read 4096)) :
    AnswersAtOnce pb host len content (first :: more) ↔ kMinMessageLen < len := by
  constructor
  · intro at_once
    by_contra small
    apply not_answersAtOnce pb host len content _ more at_once
    rw [whole, List.length_append, length_word, size]
    rw [kMinMessageLen, kHeaderLen] at small
    omega
  · intro above
    exact answersAtOnce pb host size above whole more

theorem receive_hello_at_once :
    AnswersAtOnce helloTypes .little 14 (body hello) [⟨frame hello, by decide, by decide⟩] :=
  (receive_at_once_iff helloTypes .little rfl rfl []).mpr (by decide)

/-- A type whose name is one byte long. -/
def shortTypes : Protobuf := .ofNames [ascii "A"]

/-- The shortest admissible frame, ten bytes: a message of that type with no payload. -/
def shortFrame : Read 4096 := ⟨frame ⟨ascii "A", []⟩, by decide, by decide⟩

/-- The whole of a valid frame is there, and `receive` waits for the end of the stream. -/
theorem receive_waits_after_short_frame :
    (⟨ascii "A", []⟩ : Message).Valid shortTypes ∧
      shortFrame.data = word 6 ++ body ⟨ascii "A", []⟩ ∧ kMinMessageLen ≤ 6 ∧
      (∃ ba, receive shortTypes .little (.ofReads [shortFrame]) = .ok closed ba) ∧
      ¬ AnswersAtOnce shortTypes .little 6 (body ⟨ascii "A", []⟩) [shortFrame] := by
  refine ⟨⟨by decide, rfl⟩, rfl, by decide, ?_, ?_⟩
  · obtain ⟨ba, computed⟩ := receive_eq shortTypes .little [shortFrame]
    have answer : receiveBytes shortTypes [shortFrame] [] = closed := by decide +kernel
    rw [answer] at computed
    exact ⟨ba, computed⟩
  · exact not_answersAtOnce shortTypes .little 6 _ (by decide) []

end Reyao.Rpc
