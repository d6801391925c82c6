import GgLib.StringView

/-! `HttpRequest` and the request parser `HttpContext`. The parser works on the
readable bytes of the input buffer. `receiveTime_` is left out: the repository
writes it and never reads it. -/
namespace GgLib

open StringView

namespace HttpRequest

inductive Method
  | kInvalid | kGet | kPost | kHead | kPut | kDelete
  deriving DecidableEq, Repr

inductive Version
  | kUnknown | kHttp10 | kHttp11
  deriving DecidableEq, Repr

end HttpRequest

structure HttpRequest where
  method : HttpRequest.Method
  version : HttpRequest.Version
  path : List Byte
  query : List Byte
  headers : List (List Byte × List Byte)
  deriving DecidableEq, Repr

namespace HttpRequest

def empty : HttpRequest := ⟨.kInvalid,.kUnknown,[],[],[]⟩

def setVersion (r : HttpRequest) (v : Version) : HttpRequest := { r with version := v }

/-- A method text that is not known leaves the method as it was. -/
def setMethod (r : HttpRequest) (m : List Byte) : Bool × HttpRequest :=
  let r' :=
    if m = text "GET" then { r with method := .kGet }
    else if m = text "POST" then { r with method := .kPost }
    else if m = text "HEAD" then { r with method := .kHead }
    else if m = text "PUT" then { r with method := .kPut }
    else if m = text "HEAD" then { r with method := .kHead }
    else r
  (decide (r'.method ≠ .kInvalid),r')

def methodString (r : HttpRequest) : List Byte :=
  match r.method with
  | .kGet => text "GET"
  | .kPost => text "POST"
  | .kHead => text "HEAD"
  | .kPut => text "PUT"
  | .kDelete => text "DELETE"
  | .kInvalid => text "UNKNOWN"

def setPath (r : HttpRequest) (path : List Byte) : HttpRequest := { r with path }
def setQuery (r : HttpRequest) (query : List Byte) : HttpRequest := { r with query }

def assign {V : Type} (key : List Byte) (value : V) : List (List Byte × V) → List (List Byte × V)
  | [] => [(key,value)]
  | (k,v)::rest => if k = key then (k,value)::rest else (k,v)::assign key value rest

def addHeader (r : HttpRequest) (key value : List Byte) : HttpRequest :=
  { r with headers := assign key value r.headers }

/-- The empty string when the key is missing. -/
def getHeader (r : HttpRequest) (key : List Byte) : List Byte :=
  (r.headers.lookup key).getD []

end HttpRequest

namespace HttpContext

inductive ParseState
  | kExpectRequestLine | kExpectHeaders | kExpectBody | kGotAll
  deriving DecidableEq, Repr

end HttpContext

structure HttpContext where
  state : HttpContext.ParseState
  request : HttpRequest
  deriving DecidableEq, Repr

namespace HttpContext

/-- The constructor, and the context after `reset()`. -/
def fresh : HttpContext := ⟨.kExpectRequestLine,.empty⟩

def gotAll (c : HttpContext) : Bool := decide (c.state = .kGotAll)

def reset (_ : HttpContext) : HttpContext := fresh

/-- `setPath` and `setQuery` from the text between the two spaces. -/
def setTarget (r : HttpRequest) (pathQuery : List Byte) : Except OutOfRange HttpRequest :=
  match find pathQuery QUESTION 0 with
  | some questionMark => do
    let path ← substr pathQuery (some 0) (some questionMark)
    let query ← substr pathQuery (some questionMark) none
    return (r.setPath path).setQuery query
  | none => return r.setPath pathQuery

/-- Accept `HTTP/1.1` and `HTTP/1.0`. -/
def setVersionText (r : HttpRequest) (version : List Byte) : Bool × HttpRequest :=
  if version.length = 8 ∧ startsWith version (text "HTTP/1.") then
    if version[7]? = some 49 then (true,r.setVersion .kHttp11)
    else if version[7]? = some 48 then (true,r.setVersion .kHttp10)
    else (false,r)
  else (false,r)

/-- The returned flag and the request with the fields set so far. -/
def processRequestLine (r : HttpRequest) (sv : List Byte) : Except OutOfRange (Bool × HttpRequest) :=
  match find sv SP 0 with
  | none => return (false,r)
  | some space => do
    let m ← substr sv (some 0) (some space)
    let (known,r) := r.setMethod m
    if known then
      let start := space+1
      match find sv SP start with
      | none => return (false,r)
      | some space => do
        let pathQuery ← substr sv (some start) (some (space-start))
        let r ← setTarget r pathQuery
        let version ← substr sv (some (space+1)) none
        return setVersionText r version
    else return (false,r)

variable (checkHeaderCallback : HttpRequest → Bool)

/-- A line in state `kExpectRequestLine`: whether it is accepted, and the context after it. -/
def requestLine (c : HttpContext) (sv : List Byte) : Except OutOfRange (Bool × HttpContext) := do
  let (succeed,request) ← processRequestLine c.request sv
  if succeed && checkHeaderCallback request then return (true,⟨.kExpectHeaders,request⟩)
  else return (false,{ c with request })

/-- A line in state `kExpectHeaders`: whether there is more, and the context after it.
A line without a colon ends the headers. -/
def headerLine (c : HttpContext) (sv : List Byte) : Except OutOfRange (Bool × HttpContext) :=
  let colon := find sv COLON 0
  let valueBegin := findFirstNotOf sv SP (succPos colon)
  let valueEnd := findLastNotOf sv SP
  if colon ≠ none then do
    let key ← substr sv (some 0) colon
    let value ← substr sv valueBegin (span valueBegin valueEnd)
    return (true,{ c with request := c.request.addHeader key value })
  else return (false,{ c with state := .kGotAll })

/-- One iteration of the loop in `parseRequest`. -/
structure Turn where
  ok : Bool
  hasMore : Bool
  context : HttpContext
  buf : ByteQueue
  deriving DecidableEq, Repr

def turn (c : HttpContext) (buf : ByteQueue) : Except OutOfRange Turn :=
  match c.state with
  | .kExpectRequestLine =>
    match buf.findCRLF with
    | some crlf => do
      let (accepted,c') ← requestLine checkHeaderCallback c (buf.take crlf)
      if accepted then return ⟨true,true,c',buf.dropFront (crlf+2)⟩
      else return ⟨false,false,c',buf⟩
    | none => return ⟨true,false,c,buf⟩
  | .kExpectHeaders =>
    match buf.findCRLF with
    | some crlf => do
      let (hasMore,c') ← headerLine c (buf.take crlf)
      return ⟨true,hasMore,c',buf.dropFront (crlf+2)⟩
    | none => return ⟨true,false,c,buf⟩
  | .kExpectBody => return ⟨true,true,c,buf⟩
  | .kGotAll => return ⟨true,true,c,buf⟩

/-- The loop, for at most `n` iterations; `none` when they do not suffice. -/
def parseLoop : ℕ → HttpContext → ByteQueue → Option (Except OutOfRange (Bool × HttpContext × ByteQueue))
  | 0, _, _ => none
  | n+1, c, buf =>
    match turn checkHeaderCallback c buf with
    | .error e => some (.error e)
    | .ok t => if t.hasMore then parseLoop n t.context t.buf else some (.ok (t.ok,t.context,t.buf))

/-- Returned flag, context and remaining bytes, or the exception that escapes. It is
`none` exactly for a context whose loop does not end, see `parseLoop_stuck`. -/
def parseRequest (c : HttpContext) (buf : ByteQueue) :
    Option (Except OutOfRange (Bool × HttpContext × ByteQueue)) :=
  parseLoop checkHeaderCallback (buf.length+1) c buf

end HttpContext
end GgLib
