import Reyao.Endian

/-!
# The byte buffer (`bytearray.h`, `bytearray.cc`)

`buf_` is a vector with two positions in it: the bytes in `[readPos_, writePos_)`
are written and not yet read, the first `kCheapPrepend` bytes are kept free for
`writePrepend`. `ByteArrayM` is a member function that may throw: the state
after a throw is part of the result.

A pointer into the buffer is its offset from `&buf_[0]`; a pointer difference is
a difference of offsets.
-/

namespace Reyao

open Lib

structure ByteArray : Type where
  endian : ByteOrder
  writePos : Nat
  readPos : Nat
  buf : Bytes
  deriving DecidableEq, Repr

abbrev ByteArrayM : Type → Type := EStateM Fault ByteArray

def kInitSize : Nat := 1024

def kCheapPrepend : Nat := 8

/-- `ByteArray::kCRLF`. -/
def kCRLF : Bytes := [13, 10]

/-- The first offset at which `pat` stands in `s`: `std::search`. -/
def search (pat : Bytes) : Bytes → Option Nat
  | [] => if pat = [] then some 0 else none
  | s@(_ :: rest) => if pat.isPrefixOf s then some 0 else (search pat rest).map (· + 1)

namespace ByteArray

/-- The constructor `ByteArray(size_t initSize)`. -/
def new (initSize : Nat) : ByteArray where
  endian := .big
  writePos := kCheapPrepend
  readPos := kCheapPrepend
  buf := List.replicate (kCheapPrepend + initSize) 0

/-- `ByteArray()`. -/
def fresh : ByteArray := new kInitSize

def getReadSize (ba : ByteArray) : Nat := sizeSub ba.writePos ba.readPos

def getWriteSize (ba : ByteArray) : Nat := sizeSub ba.buf.length ba.writePos

def setWritePos (pos : Nat) (ba : ByteArray) : ByteArray := { ba with writePos := pos }

def setReadPos (pos : Nat) (ba : ByteArray) : ByteArray := { ba with readPos := pos }

/-- The `n` bytes from offset `pos` on, when they lie inside `buf_`. -/
def bytesAt (ba : ByteArray) (pos n : Nat) : Bytes := (ba.buf.drop pos).take n

/-- The bytes in `[readPos_, writePos_)`. -/
def unread (ba : ByteArray) : Bytes := (ba.buf.take ba.writePos).drop ba.readPos

/-- `addCapacity(int size)`: grow the vector, or slide the unread bytes down to
offset `kCheapPrepend`. Growing always finds the memory; a size that wraps below
zero is above `max_size()` and `resize` throws. -/
def addCapacity (size : Int) : ByteArrayM Unit := fun ba =>
  if ba.getWriteSize + ba.readPos < sizeAdd kCheapPrepend size then
    if 0 ≤ ba.writePos + size then
      let len := (ba.writePos + size).toNat
      .ok () { ba with buf := ba.buf.take len ++ List.replicate (len - ba.buf.length) 0 }
    else .error (.lengthError "vector::_M_default_append") ba
  else if kCheapPrepend ≤ ba.readPos then
    let moved := ba.bytesAt ba.readPos ba.getReadSize
    .ok () { ba with
      buf := ba.buf.take kCheapPrepend ++ moved ++ ba.buf.drop (kCheapPrepend + moved.length)
      readPos := kCheapPrepend
      writePos := kCheapPrepend + ba.getReadSize }
  else .error .assertFailed ba

/-- `memcpy(&buf_[pos], data, size)`. -/
def copyIn (pos : Nat) (data : Bytes) : ByteArrayM Unit := fun ba =>
  if pos + data.length ≤ ba.buf.length then
    .ok () { ba with buf := ba.buf.take pos ++ data ++ ba.buf.drop (pos + data.length) }
  else .error .outOfBounds ba

/-- Put `data` into a write area and move the write position by its length. -/
def fillArea (area : Nat) (data : Bytes) : ByteArrayM Unit := do
  copyIn area data
  modify fun ba => ba.setWritePos (ba.writePos + data.length)

/-- `write(const void* buf, size_t size)`. -/
def write (data : Bytes) : ByteArrayM Unit := do
  if data.length = 0 then return
  addCapacity (toInt data.length)
  fillArea (← get).writePos data

/-- `read(void* buf, size_t size)`. -/
def read (size : Nat) : ByteArrayM Bytes := fun ba =>
  if size > ba.getReadSize then .error (.outOfRange "have no enough data to read") ba
  else if ba.readPos + size ≤ ba.buf.length then
    .ok (ba.bytesAt ba.readPos size) (ba.setReadPos (ba.readPos + size))
  else .error .outOfBounds ba

/-- `getWriteArea(size_t len)`; the pointer is the write position after it. -/
def getWriteArea (len : Nat) : ByteArrayM Nat := do
  addCapacity (toInt len)
  return (← get).writePos

/-- `getReadArea(size_t* len)`: the pointer and the length it leaves in `*len`. -/
def getReadArea (ba : ByteArray) (len : Nat) : Nat × Nat :=
  (ba.readPos, if len > ba.getReadSize then ba.getReadSize else len)

/-- `toString()`. -/
def toString : ByteArrayM Bytes := fun ba =>
  if ba.getReadSize = 0 then .ok [] ba else read ba.getReadSize ba

/-- `reset()`. -/
def reset (ba : ByteArray) : ByteArray :=
  { ba with
    readPos := 0
    writePos := 0
    buf := ba.buf.take kInitSize ++ List.replicate (kInitSize - ba.buf.length) 0 }

/-- `findCRLF()`, as the distance of the result from `peek()`. -/
def findCRLF (ba : ByteArray) : Option Nat := search kCRLF ba.unread

/-- `writePrepend(const void* data, size_t len)`. -/
def writePrepend (data : Bytes) : ByteArrayM Unit := fun ba =>
  if data.length ≤ ba.readPos then
    (do modify (setReadPos (ba.readPos - data.length))
        copyIn (ba.readPos - data.length) data : ByteArrayM Unit) ba
  else .error .assertFailed ba

/-! ## Typed access

The sixteen typed members differ in width and sign only: each swaps the value
when the order of the array is not the order of the host, and moves its memory
image. -/

/-- Write a `w`-byte integer given by its pattern. -/
def writeWord (host : ByteOrder) (w n : Nat) : ByteArrayM Unit := fun ba =>
  write (host.store w (if ba.endian ≠ host then byteSwap w n else n)) ba

/-- Read the pattern of a `w`-byte integer. -/
def readWord (host : ByteOrder) (w : Nat) : ByteArrayM Nat := fun ba =>
  (do let image ← read w
      let v := host.load image
      return if ba.endian ≠ host then byteSwap w v else v : ByteArrayM Nat) ba

/-- `writeInt8(int8_t value)`; a single byte has no order. -/
def writeInt8 (host : ByteOrder) (value : Int) : ByteArrayM Unit :=
  write (host.store 1 (pattern 1 value))

/-- `writeUint8(uint8_t value)`. -/
def writeUint8 (host : ByteOrder) (value : Nat) : ByteArrayM Unit := write (host.store 1 value)

/-- `writeInt16(int16_t value)`. -/
def writeInt16 (host : ByteOrder) (value : Int) : ByteArrayM Unit :=
  writeWord host 2 (pattern 2 value)

/-- `writeUint16(uint16_t value)`. -/
def writeUint16 (host : ByteOrder) (value : Nat) : ByteArrayM Unit := writeWord host 2 value

/-- `writeInt32(int32_t value)`. -/
def writeInt32 (host : ByteOrder) (value : Int) : ByteArrayM Unit :=
  writeWord host 4 (pattern 4 value)

/-- `writeUint32(uint32_t value)`. -/
def writeUint32 (host : ByteOrder) (value : Nat) : ByteArrayM Unit := writeWord host 4 value

/-- `writeInt64(int64_t value)`. -/
def writeInt64 (host : ByteOrder) (value : Int) : ByteArrayM Unit :=
  writeWord host 8 (pattern 8 value)

/-- `writeUint64(uint64_t value)`. -/
def writeUint64 (host : ByteOrder) (value : Nat) : ByteArrayM Unit := writeWord host 8 value

/-- `writeFloat(float value)` for the bits of the value. -/
def writeFloat (host : ByteOrder) (bits : UInt32) : ByteArrayM Unit :=
  writeInt32 host (signed 4 bits.toNat)

/-- `writeDouble(double value)` for the bits of the value. -/
def writeDouble (host : ByteOrder) (bits : UInt64) : ByteArrayM Unit :=
  writeInt64 host (signed 8 bits.toNat)

/-- `readInt8()`; a single byte has no order. -/
def readInt8 : ByteArrayM Int := do
  return signed 1 (ofLeBytes (← read 1))

/-- `readUint8()`. -/
def readUint8 : ByteArrayM Nat := do
  return ofLeBytes (← read 1)

/-- `readInt16()`. -/
def readInt16 (host : ByteOrder) : ByteArrayM Int := do
  return signed 2 (← readWord host 2)

/-- `readUint16()`. -/
def readUint16 (host : ByteOrder) : ByteArrayM Nat := readWord host 2

/-- `readInt32()`. -/
def readInt32 (host : ByteOrder) : ByteArrayM Int := do
  return signed 4 (← readWord host 4)

/-- `readUint32()`. -/
def readUint32 (host : ByteOrder) : ByteArrayM Nat := readWord host 4

/-- `readInt64()`. -/
def readInt64 (host : ByteOrder) : ByteArrayM Int := do
  return signed 8 (← readWord host 8)

/-- `readUint64()`. -/
def readUint64 (host : ByteOrder) : ByteArrayM Nat := readWord host 8

/-- `readFloat()`, the bits of its result. -/
def readFloat (host : ByteOrder) : ByteArrayM UInt32 := do
  return UInt32.ofNat (← readUint32 host)

/-- `readDouble()`, the bits of its result. -/
def readDouble (host : ByteOrder) : ByteArrayM UInt64 := do
  return UInt64.ofNat (← readUint64 host)

/-- `writeString(const std::string& value)`. -/
def writeString (value : Bytes) : ByteArrayM Unit := write value

/-- `writeString16(const std::string& value)`; the size is converted to `uint16_t`. -/
def writeString16 (host : ByteOrder) (value : Bytes) : ByteArrayM Unit := do
  writeUint16 host (value.length % 2 ^ 16)
  write value

/-- `writeString32(const std::string& value)`. -/
def writeString32 (host : ByteOrder) (value : Bytes) : ByteArrayM Unit := do
  writeUint32 host (value.length % 2 ^ 32)
  write value

/-- `writeString64(const std::string& value)`. -/
def writeString64 (host : ByteOrder) (value : Bytes) : ByteArrayM Unit := do
  writeUint64 host value.length
  write value

/-- What `readString16`, `readString32` and `readString64` do with the length they
have read: `resize` a string and read into it. -/
def readChars (len : Nat) : ByteArrayM Bytes := do
  if len > maxSize then throw (.lengthError "basic_string::_M_replace_aux")
  read len

/-- `readString16()`. -/
def readString16 (host : ByteOrder) : ByteArrayM Bytes := do
  readChars (← readUint16 host)

/-- `readString32()`. -/
def readString32 (host : ByteOrder) : ByteArrayM Bytes := do
  readChars (← readUint32 host)

/-- `readString64()`. -/
def readString64 (host : ByteOrder) : ByteArrayM Bytes := do
  readChars (← readUint64 host)

/-- `setEndian(int endian)`. Only whether `endian_` is the order of the host is ever
looked at, so any other value is the other order. -/
def setEndian (host : ByteOrder) (endian : Int) (ba : ByteArray) : ByteArray :=
  { ba with endian := if endian = host.macroValue then host else host.other }

end ByteArray

end Reyao
