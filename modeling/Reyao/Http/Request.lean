import Reyao.Cxx
import Reyao.Lib.OrderedMap
import Mathlib.Data.List.Lex
import Mathlib.Order.Nat

/-!
# HTTP requests (`http/http_request.h`, `http/http_request.cc`)

Header names are compared without case and as C strings, so a map of headers is
ordered by `caseKey`; its order is part of its type.
-/

namespace Reyao.Http

open Lib

inductive HttpMethod : Type
  | GET
  | HEAD
  | POST
  | INVALID_METHOD
  deriving DecidableEq, Repr

/-- `StringToHttpMethod`: the string is compared up to its first NUL. -/
def StringToHttpMethod (str : Bytes) : HttpMethod :=
  if cstr str = ascii "GET" then .GET
  else if cstr str = ascii "HEAD" then .HEAD
  else if cstr str = ascii "POST" then .POST
  else .INVALID_METHOD

def HttpMethodToString : HttpMethod → Bytes
  | .GET => ascii "GET"
  | .HEAD => ascii "HEAD"
  | .POST => ascii "POST"
  | .INVALID_METHOD => ascii "<unknown>"

/-- What `CaseInsensitiveLess` compares: `strcasecmp` is the lexicographic order
of the lowered bytes. -/
def caseKey (s : Bytes) : List Nat := (foldCase s).map UInt8.toNat

/-- `StrMap`. -/
structure StrMap : Type where
  entries : List (Bytes × Bytes)
  sorted : OrderedMap.Sorted caseKey entries
  deriving DecidableEq

namespace StrMap

def empty : StrMap := ⟨[], List.Pairwise.nil⟩

/-- `map[key] = val`. -/
def assign (key val : Bytes) (map : StrMap) : StrMap :=
  ⟨OrderedMap.assign caseKey key val map.entries, map.sorted.assign key val⟩

/-- `map.find(key)`. -/
def find (key : Bytes) (map : StrMap) : Option Bytes :=
  OrderedMap.lookup caseKey key map.entries

end StrMap

structure HttpRequest : Type where
  method : HttpMethod
  version : Nat
  keepAlive : Bool
  path : Bytes
  query : Bytes
  fragment : Bytes
  body : Bytes
  headers : StrMap
  params : StrMap
  cookies : StrMap
  deriving DecidableEq

namespace HttpRequest

/-- `HttpRequest(uint8_t version = 0x11, bool keepAlive = false)`. -/
def new (version : Nat) (keepAlive : Bool) : HttpRequest where
  method := .GET
  version := version
  keepAlive := keepAlive
  path := ascii "/"
  query := []
  fragment := []
  body := []
  headers := .empty
  params := .empty
  cookies := .empty

def getHeader (key : Bytes) (req : HttpRequest) : Bytes :=
  match req.headers.find key with
  | none => ascii "header not found"
  | some val => val

def addHeader (key val : Bytes) (req : HttpRequest) : HttpRequest :=
  { req with headers := req.headers.assign key val }

/-- The first line `dump` writes, without its line end. -/
def firstLine (req : HttpRequest) : Bytes :=
  HttpMethodToString req.method ++ ascii " " ++ req.path ++
    (if req.query = [] then [] else ascii "?") ++ req.query ++
    (if req.fragment = [] then [] else ascii "#") ++ req.fragment ++ ascii " HTTP/" ++
    showNat (req.version / 16) ++ ascii "." ++ showNat (req.version % 16)

/-- A header line. -/
def headerLine (key val : Bytes) : Bytes := key ++ ascii ": " ++ val ++ [13, 10]

/-- `dump(std::ostream& os)`. -/
def dump (req : HttpRequest) : Bytes :=
  req.firstLine ++ [13, 10] ++
    headerLine (ascii "connection") (if req.keepAlive then ascii "keep-alive" else ascii "close") ++
    (req.headers.entries.flatMap fun entry =>
      if eqIgnoreCase entry.1 (ascii "connection") then [] else headerLine entry.1 entry.2) ++
    (if req.body = [] then [13, 10]
      else headerLine (ascii "content-length") (showNat req.body.length) ++ [13, 10] ++ req.body)

end HttpRequest

end Reyao.Http
