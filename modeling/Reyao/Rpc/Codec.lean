import Reyao.SocketStream

/-!
# The protobuf frame codec (`rpc/codec.h`, `rpc/codec.cc`)

A frame is the length of what follows, the length of the type name with its
NUL, the type name, a NUL and the payload; both lengths are four bytes, most
significant first.

Protobuf itself is not part of the repository. A message is its type name and
its payload bytes, and `Protobuf` is what the codec asks of the library: whether
a type name is registered (`FindMessageTypeByName` and `GetPrototype`), and what
`ParseFromArray` makes of payload bytes.
-/

namespace Reyao.Rpc

/-- The protobuf library as the codec uses it. -/
structure Protobuf : Type where
  /-- A prototype exists under this type name. -/
  registered : Bytes → Bool
  /-- `ParseFromArray` on a new message of a type: whether it succeeds, and the
  content it leaves. -/
  parseFromArray : Bytes → Bytes → Bool × Bytes
  /-- No message type has an empty full name. -/
  registered_nil : registered [] = false
  /-- A successful parse stores the payload. -/
  parse_content : ∀ {name payload : Bytes},
    (parseFromArray name payload).1 = true → (parseFromArray name payload).2 = payload

/-- What a `MessageSPtr` points to. -/
structure Message : Type where
  typeName : Bytes
  payload : Bytes
  deriving DecidableEq, Repr

/-- A message of a registered type whose serialisation the library reads back. -/
structure Message.Valid (pb : Protobuf) (msg : Message) : Prop where
  registered : pb.registered msg.typeName = true
  parses : (pb.parseFromArray msg.typeName msg.payload).1 = true

/-- A library with the given message types whose payloads are any bytes. -/
def Protobuf.ofNames (names : List Bytes) : Protobuf where
  registered name := name != [] && names.contains name
  parseFromArray _ payload := (true, payload)
  registered_nil := rfl
  parse_content _ := rfl

inductive ErrorCode : Type
  | kNoError
  | kInvalidLength
  | kInvalidNameLength
  | kUnknownMessageType
  | kParseError
  | kServerClosed
  deriving DecidableEq, Repr

structure ErrMsg : Type where
  errcode : ErrorCode
  errstr : Bytes
  deriving DecidableEq, Repr

def kHeaderLen : Int := 4

def kMinMessageLen : Int := kHeaderLen + 2

def kMaxMessageLen : Int := 64 * 1024 * 1024

/-- The error object `receive` starts from. -/
def noError : ErrMsg := ⟨.kNoError, ascii "no error"⟩

open Reyao.ByteArray

/-- `serializeToByteArray(ByteArray& ba, MessageSPtr msg)`. -/
def serializeToByteArray (host : ByteOrder) (msg : Message) : ByteArrayM Unit := do
  let nameLen := toInt (msg.typeName.length + 1)
  writeInt32 host nameLen
  write msg.typeName
  write [0]
  let byteSize := toInt msg.payload.length
  let area ← getWriteArea (toSize byteSize)
  copyIn area msg.payload
  modify fun ba => ba.setWritePos (sizeAdd ba.writePos byteSize)
  let ba ← get
  if ba.getReadSize = sizeAdd (sizeAdd 4 nameLen) byteSize then
    let len := byteSwapOnLittleEndian host 4 (pattern 4 (toInt ba.getReadSize))
    writePrepend (host.store 4 len)
  else throw .assertFailed

/-- `Parse(ByteArray& ba, int len, ErrMsg::SPtr errMsg)`: the message, null on
most errors, and the error object it leaves. -/
def Parse (pb : Protobuf) (host : ByteOrder) (len : Int) (errMsg : ErrMsg) :
    ByteArrayM (Option Message × ErrMsg) := do
  let nameLen ← readInt32 host
  if nameLen < 2 ∨ nameLen > len - kHeaderLen then
    return (none, ⟨.kInvalidNameLength, ascii "invalid name length = " ++ showInt nameLen⟩)
  else do
    let ba ← get
    let name := ba.bytesAt ba.readPos (nameLen - 1).toNat
    set (ba.setReadPos (ba.readPos + (nameLen - 1).toNat))
    let terminator ← readInt8
    if terminator ≠ 0 then
      return (none, ⟨.kParseError, ascii "invalid type name"⟩)
    else if pb.registered name then do
      let ba ← get
      let payloadLen := len - kHeaderLen - nameLen
      let parsed := pb.parseFromArray name (ba.bytesAt ba.readPos payloadLen.toNat)
      if parsed.1 then return (some ⟨name, parsed.2⟩, errMsg)
      else return (some ⟨name, parsed.2⟩,
        ⟨.kParseError, ascii "message " ++ name ++ ascii " parse error"⟩)
    else return (none, ⟨.kUnknownMessageType, ascii "type name = " ++ name⟩)

/-- The `while` loop of `receive`. Every turn that goes on has used up a read, so
one more turn than there are reads is enough. -/
def receiveLoop (pb : Protobuf) (host : ByteOrder) :
    Nat → SocketStream 4096 → ByteArrayM (ErrMsg × Option Message)
  | 0, _ => return (⟨.kServerClosed, ascii "closed by peer"⟩, none)
  | fuel + 1, ss => do
      let (rt, ss) ← ss.read
      if rt > 0 then do
        let ba ← get
        if (ba.getReadSize : Int) > kHeaderLen + kMinMessageLen then do
          let len ← readInt32 host
          if len > kMaxMessageLen ∨ len < kMinMessageLen then
            return (⟨.kInvalidLength, ascii "invalid length len= " ++ showInt len⟩, none)
          else do
            let ba ← get
            if ba.getReadSize ≥ toSize len then do
              let (msg, errMsg) ← Parse pb host len noError
              return (errMsg, msg)
            else receiveLoop pb host fuel ss
        else receiveLoop pb host fuel ss
      else return (⟨.kServerClosed, ascii "closed by peer"⟩, none)

/-- `receive(MessageSPtr& msg)`. -/
def receive (pb : Protobuf) (host : ByteOrder) (ss : SocketStream 4096) :
    EStateM.Result Fault ByteArray (ErrMsg × Option Message) :=
  receiveLoop pb host (ss.incoming.length + 1) ss ByteArray.fresh

end Reyao.Rpc
