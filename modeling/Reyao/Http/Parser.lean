import Reyao.Http.Request
import Reyao.SocketStream

/-!
# The HTTP parser (`http/http_parser.h`, `http/http_parser.cc`)

`HttpRequestParser` and `HttpResponseParser` are the same code around a different
first line: the functions here are generic in the message, and `HttpMessage` has
what differs. A parser that throws leaves its state behind, so the parser is a
state of `EStateM`.

The loops are bounded by fuel that their callers compute from the unread bytes:
every turn but the last takes a line, and a chunk is followed by a size line.
-/

namespace Reyao.Http

inductive ParseState : Type
  | firstLine
  | header
  | body
  deriving DecidableEq, Repr

inductive ParseChunkState : Type
  | size
  | content
  deriving DecidableEq, Repr

/-- What the parsers for requests and responses do differently. -/
class HttpMessage (μ : Type) where
  /-- `parseFirstLine`, with `false` for a line that sets `error_`. -/
  parseFirstLine : Bytes → EStateM Fault μ Bool
  addHeader : Bytes → Bytes → μ → μ
  setBody : Bytes → μ → μ
  /-- `s_maxReqBufferSize` or `s_maxResBufferSize`. -/
  maxBufferSize : Nat
  maxBufferSize_pos : 0 < maxBufferSize
  maxBufferSize_small : maxBufferSize < 2 ^ 31

structure HttpParser (μ : Type) : Type where
  ba : ByteArray := ByteArray.fresh
  readSize : Nat := 0
  parseState : ParseState := .firstLine
  error : Bool := false
  finish : Bool := false
  body : Bytes := []
  contentLen : Nat := 0
  chunked : Bool := false
  chunkSize : Nat := 0
  chunkState : ParseChunkState := .size
  /-- What `req_` or `rsp_` points to. -/
  msg : μ

abbrev ParserM (μ : Type) : Type → Type := EStateM Fault (HttpParser μ)

namespace HttpParser

variable {μ : Type} {α : Type}

/-- A call on the buffer. -/
def onBuffer (f : ByteArrayM α) : ParserM μ α := fun p =>
  match f p.ba with
  | .ok a ba => .ok a { p with ba := ba }
  | .error e ba => .error e { p with ba := ba }

/-- A call on the message. -/
def onMessage (f : EStateM Fault μ α) : ParserM μ α := fun p =>
  match f p.msg with
  | .ok a msg => .ok a { p with msg := msg }
  | .error e msg => .error e { p with msg := msg }

/-- `peek`, `findCRLF` and the move of the read position past a line: the line, if
there is a whole one. -/
def takeLine : ParserM μ (Option Bytes) := fun p =>
  match p.ba.findCRLF with
  | none => .ok none p
  | some n =>
      .ok (some (p.ba.bytesAt p.ba.readPos n))
        { p with ba := p.ba.setReadPos (p.ba.readPos + n + 2) }

/-- `HexToDec(std::string hex)` of `util.cc`: a `size_t` that is returned as an
`int`, -1 when a byte is no hexadecimal digit. -/
def HexToDec (hex : Bytes) : Int :=
  let digit (res : Option Nat) (c : UInt8) : Option Nat :=
    res.bind fun res =>
      if 48 ≤ c ∧ c ≤ 57 then some ((res * 16 + (c.toNat - 48)) % 2 ^ 64)
      else if 65 ≤ toupper c ∧ toupper c ≤ 70 then
        some ((res * 16 + ((toupper c).toNat - 65) + 10) % 2 ^ 64)
      else none
  match hex.foldl digit (some 0) with
  | some res => toInt res
  | none => -1

section

variable [HttpMessage μ]

/-- `parseFirstLine(begin, end)`. -/
def parseFirstLine (line : Bytes) : ParserM μ Unit := do
  let good ← onMessage (HttpMessage.parseFirstLine line)
  modify fun p => if good then { p with parseState := .header } else { p with error := true }

/-- `std::stoi` inside the parser. -/
def parseInt (value : Bytes) : ParserM μ Int :=
  match stoi value with
  | .ok n => return n
  | .error e => throw e

/-- What `parseHeader` does with a title and a value. -/
def parseField (title value : Bytes) : ParserM μ Unit := do
  if eqIgnoreCase title (ascii "transfer-encoding") && eqIgnoreCase value (ascii "chunked") then
    modify fun p => { p with chunked := true }
  let p ← get
  if !p.chunked && eqIgnoreCase title (ascii "content-length") then
    let n ← parseInt value
    modify fun p => { p with contentLen := toSize n }
  modify fun p => { p with msg := HttpMessage.addHeader title value p.msg }

/-- `parseHeader(begin, end)`. The byte at `begin` is the CR of the line end when
the line is empty. -/
def parseHeader (line : Bytes) : ParserM μ Unit :=
  if (line ++ kCRLF).head? = some 13 then
    modify fun p => { p with parseState := .body }
  else
    let title := line.takeWhile (· ≠ 58)
    let rest := line.dropWhile (· ≠ 58)
    if rest ≠ [] ∧ rest.length ≠ 2 then
      -- the constructor of `value` gets the length -1 when the colon ends the line
      if rest.length = 1 then throw (.lengthError "basic_string::_M_create")
      else parseField title (rest.drop 2)
    else modify fun p => { p with error := true }

/-- A turn of the loop of `parseChunkedBody`: the parser after it, and whether the loop goes
round again. -/
def chunkStep (p : HttpParser μ) : HttpParser μ × Bool :=
  if p.error then (p, false)
  else if p.chunkSize = 0 then
    match takeLine p with
    | .error _ p => (p, false)
    | .ok none p => (p, false)
    | .ok (some hex) p =>
        let chunkSize := toSize (HexToDec hex)
        let p := { p with chunkSize := chunkSize }
        if chunkSize = 2 ^ 64 - 1 then ({ p with error := true }, false)
        else if chunkSize = 0 then
          ({ p with msg := HttpMessage.setBody p.body p.msg, finish := true }, false)
        else ({ p with chunkState := .content }, true)
  else if p.chunkState = .content then
    let size := (p.chunkSize + 2) % 2 ^ 64
    if size ≤ p.ba.getReadSize then
      ({ p with
        body := p.body ++ p.ba.bytesAt p.ba.readPos size
        ba := p.ba.setReadPos (p.ba.readPos + size)
        chunkSize := 0
        chunkState := .size }, true)
    else (p, false)
  else (p, true)

/-- The loop of `parseChunkedBody`, going round with `again`. -/
def chunkedTurn (again : ParserM μ Unit) : ParserM μ Unit := fun p =>
  if (chunkStep p).2 then again (chunkStep p).1 else .ok () (chunkStep p).1

/-- `parseChunkedBody()`. -/
def parseChunkedBody : Nat → ParserM μ Unit
  | 0 => return
  | fuel + 1 => chunkedTurn (parseChunkedBody fuel)

/-- `parseFixedBody()`. -/
def parseFixedBody : ParserM μ Unit := do
  let p ← get
  if p.contentLen = 0 then set { p with finish := true }
  else if p.ba.getReadSize ≥ p.contentLen then
    set { p with
      msg := HttpMessage.setBody (p.ba.bytesAt p.ba.readPos p.contentLen) p.msg
      ba := p.ba.setReadPos (p.ba.readPos + p.contentLen)
      finish := true }

/-- The body of the inner loop of `parseRequest` and `parseResponse`, where
`chunked` does what `parseChunkedBody` does. -/
def bufferTurn (chunked again : ParserM μ Unit) : ParserM μ Unit := do
  let p ← get
  if p.error then return
  else match p.parseState with
    | .firstLine =>
        match ← takeLine with
        | none => return
        | some line => do
            parseFirstLine line
            again
    | .header =>
        match ← takeLine with
        | none => return
        | some line => do
            parseHeader line
            again
    | .body => do
        if !p.chunked && p.contentLen == 0 then modify fun p => { p with finish := true }
        if p.chunked then chunked else parseFixedBody

/-- The inner loop of `parseRequest` and `parseResponse`: parse what is there. -/
def parseBuffer : Nat → ParserM μ Unit
  | 0 => return
  | fuel + 1 => do
      let p ← get
      bufferTurn (parseChunkedBody (2 * p.ba.getReadSize + 2)) (parseBuffer fuel)

/-- The inner loop, with enough fuel. -/
def parseThere : ParserM μ Unit := do
  let p ← get
  parseBuffer (p.ba.getReadSize + 1)

/-- The body of their outer loop, where `buffer` does what the inner one does. -/
def readTurn (buffer : ParserM μ Unit)
    (again : SocketStream (HttpMessage.maxBufferSize μ) →
      ParserM μ (Bool × SocketStream (HttpMessage.maxBufferSize μ)))
    (ss : SocketStream (HttpMessage.maxBufferSize μ)) :
    ParserM μ (Bool × SocketStream (HttpMessage.maxBufferSize μ)) := do
  let p ← get
  if p.finish || p.error then return (!p.error, ss)
  else if p.readSize = HttpMessage.maxBufferSize μ then return (false, ss)
  else
    let (len, ss) ← onBuffer ss.read
    if len ≤ 0 then return (false, ss)
    else
      buffer
      again ss

/-- `parseRequest()` and `parseResponse()`: the outer loop, which reads. Every
turn that goes on uses up a read. -/
def parseMessage : Nat → SocketStream (HttpMessage.maxBufferSize μ) →
    ParserM μ (Bool × SocketStream (HttpMessage.maxBufferSize μ))
  | 0, ss => return (false, ss)
  | fuel + 1, ss => readTurn parseThere (parseMessage fuel) ss

end

end HttpParser

/-! ## Requests -/

namespace HttpRequest

/-- `parseURI(begin, end, des)`: the bytes before `des`, and those after it when
it occurs. -/
def parseURI (uri : Bytes) (des : UInt8) : Bytes × Option Bytes :=
  match uri.dropWhile (· ≠ des) with
  | [] => (uri, none)
  | _ :: after => (uri.takeWhile (· ≠ des), some after)

/-- The versions `parseFirstLine` accepts. -/
def versionOf (version : Bytes) : Option Nat :=
  if version = ascii "HTTP/1.0" then some 0x10
  else if version = ascii "HTTP/1.1" then some 0x11
  else none

/-- `HttpRequestParser::parseFirstLine`. -/
def parseFirstLine (line : Bytes) : EStateM Fault HttpRequest Bool :=
  match line.dropWhile (· ≠ 32) with
  | [] => return false
  | _ :: rest => do
      modify fun req => { req with method := StringToHttpMethod (line.takeWhile (· ≠ 32)) }
      match rest.dropWhile (· ≠ 32) with
      | [] => return false
      | _ :: version =>
          match versionOf version with
          | none => return false
          | some version => do
              modify fun req => { req with version := version }
              let uri := (rest.takeWhile (· ≠ 32)).dropWhile (· ≠ 47)
              if uri = [] then return false
              else do
                let (uri, fragment) := parseURI uri 35
                modify fun req => { req with fragment := fragment.getD req.fragment }
                let (uri, query) := parseURI uri 63
                modify fun req => { req with query := query.getD req.query }
                let path := uri.dropWhile (· ≠ 47)
                modify fun req => { req with path := if path = [] then req.path else path }
                return true

end HttpRequest

instance : HttpMessage HttpRequest where
  parseFirstLine := HttpRequest.parseFirstLine
  addHeader := HttpRequest.addHeader
  setBody body req := { req with body := body }
  maxBufferSize := 4096
  maxBufferSize_pos := by decide
  maxBufferSize_small := by decide

/-- A new `HttpRequestParser` on `req`, and its `parseRequest()`. -/
def parseRequest (ss : SocketStream 4096) (req : HttpRequest) :
    EStateM.Result Fault (HttpParser HttpRequest) (Bool × SocketStream 4096) :=
  HttpParser.parseMessage (ss.incoming.length + 2) ss { msg := req }

end Reyao.Http
