import Reyao.Http.Parser

/-!
# HTTP responses (`http/http_response.h`, `http/http_response.cc`)

A response differs from a request in its first line, which carries a status code
and a reason.
-/

namespace Reyao.Http

inductive HttpStatus : Type
  | OK
  | MOVED_PERMANENTLY
  | BAD_REQUEST
  | UNAUTHORIZED
  | NOT_FOUND
  | INTERNAL_SERVER_ERROR
  deriving DecidableEq, Repr

namespace HttpStatus

def code : HttpStatus → Nat
  | OK => 200
  | MOVED_PERMANENTLY => 301
  | BAD_REQUEST => 400
  | UNAUTHORIZED => 401
  | NOT_FOUND => 404
  | INTERNAL_SERVER_ERROR => 500

/-- `HttpStatusToString`. -/
def toString : HttpStatus → Bytes
  | OK => ascii "OK"
  | MOVED_PERMANENTLY => ascii "Moved Permanently"
  | BAD_REQUEST => ascii "Bad Request"
  | UNAUTHORIZED => ascii "Unauthorized"
  | NOT_FOUND => ascii "Not Found"
  | INTERNAL_SERVER_ERROR => ascii "Internal Server Error"

/-- `isHttpStatus` and the conversion to `HttpStatus`. -/
def ofCode (status : Int) : Option HttpStatus :=
  [OK, MOVED_PERMANENTLY, BAD_REQUEST, UNAUTHORIZED, NOT_FOUND, INTERNAL_SERVER_ERROR].find?
    fun s => (s.code : Int) == status

end HttpStatus

structure HttpResponse : Type where
  status : HttpStatus
  version : Nat
  keepAlive : Bool
  body : Bytes
  reason : Bytes
  headers : StrMap
  deriving DecidableEq

namespace HttpResponse

/-- `HttpResponse(uint8_t version = 0x11, bool keepAlive = false)`. -/
def new (version : Nat) (keepAlive : Bool) : HttpResponse where
  status := .OK
  version := version
  keepAlive := keepAlive
  body := []
  reason := []
  headers := .empty

def addHeader (key val : Bytes) (rsp : HttpResponse) : HttpResponse :=
  { rsp with headers := rsp.headers.assign key val }

/-- `dump(std::ostream& os)`. -/
def dump (rsp : HttpResponse) : Bytes :=
  ascii "HTTP/" ++ showNat (rsp.version / 16) ++ ascii "." ++ showNat (rsp.version % 16) ++
    ascii " " ++ showNat rsp.status.code ++ ascii " " ++
    (if rsp.reason = [] then rsp.status.toString else rsp.reason) ++ [13, 10] ++
    HttpRequest.headerLine (ascii "Connection")
      (if rsp.keepAlive then ascii "Keep-Alive" else ascii "Close") ++
    (rsp.headers.entries.flatMap fun entry =>
      if eqIgnoreCase entry.1 (ascii "connection") then []
      else HttpRequest.headerLine entry.1 entry.2) ++
    (if rsp.body = [] then [13, 10]
      else HttpRequest.headerLine (ascii "Content-Length") (showNat rsp.body.length) ++ [13, 10] ++
        rsp.body)

theorem dump_ne_nil (rsp : HttpResponse) : rsp.dump ≠ [] := by
  intro empty
  simp only [dump, List.append_eq_nil_iff] at empty
  exact absurd empty.1.1.1.1.1.1.1.1.1.1.1 (by decide)

/-- `HttpResponseParser::parseFirstLine`. -/
def parseFirstLine (line : Bytes) : EStateM Fault HttpResponse Bool :=
  match line.dropWhile (· ≠ 32) with
  | [] => return false
  | _ :: rest =>
      match HttpRequest.versionOf (line.takeWhile (· ≠ 32)) with
      | none => return false
      | some version => do
          modify fun rsp => { rsp with version := version }
          match rest.dropWhile (· ≠ 32) with
          | [] => return false
          | space :: reason =>
              match stoi (rest.takeWhile (· ≠ 32)) with
              | .error e => throw e
              | .ok status_code =>
                  match HttpStatus.ofCode status_code with
                  | none => return false
                  | some status => do
                      -- the reason keeps the blank before it
                      modify fun rsp => { rsp with status := status, reason := space :: reason }
                      return true

end HttpResponse

instance : HttpMessage HttpResponse where
  parseFirstLine := HttpResponse.parseFirstLine
  addHeader := HttpResponse.addHeader
  setBody body rsp := { rsp with body := body }
  maxBufferSize := 64 * 1024 * 1024
  maxBufferSize_pos := by decide
  maxBufferSize_small := by decide

/-- A new `HttpResponseParser` on `rsp`, and its `parseResponse()`. -/
def parseResponse (ss : SocketStream (HttpMessage.maxBufferSize HttpResponse))
    (rsp : HttpResponse) : EStateM.Result Fault (HttpParser HttpResponse)
      (Bool × SocketStream (HttpMessage.maxBufferSize HttpResponse)) :=
  HttpParser.parseMessage (ss.incoming.length + 2) ss { msg := rsp }

end Reyao.Http
