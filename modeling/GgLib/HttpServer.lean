import GgLib.HttpContext

/-! `HttpResponse` and the message handling of `HttpServer`. The order in which an
`unordered_map` is iterated and the text of the Date line come from outside. -/
namespace GgLib

open StringView

/-- What `c_str()` keeps of a string. -/
def cStr (s : List Byte) : List Byte := s.takeWhile (· != 0)

namespace HttpResponse

inductive HttpStatusCode
  | kUnknown | k200Ok | k301MovedPermanently | k400BadRequest | k404NotFound
  deriving DecidableEq, Repr

def HttpStatusCode.toNat : HttpStatusCode → ℕ
  | .kUnknown => 0
  | .k200Ok => 200
  | .k301MovedPermanently => 301
  | .k400BadRequest => 400
  | .k404NotFound => 404

end HttpResponse

structure HttpResponse where
  headers : List (List Byte × List Byte)
  statusCode : HttpResponse.HttpStatusCode
  statusMessage : List Byte
  body : List Byte
  closeConnection : Bool
  deriving DecidableEq, Repr

namespace HttpResponse

def empty : HttpResponse := ⟨[],.kUnknown,[],[],false⟩

def setStatusCode (r : HttpResponse) (statusCode : HttpStatusCode) : HttpResponse := { r with statusCode }
def setCloseConnection (r : HttpResponse) (on : Bool) : HttpResponse := { r with closeConnection := on }
def addHeader (r : HttpResponse) (key value : List Byte) : HttpResponse :=
  { r with headers := HttpRequest.assign (cStr key) (cStr value) r.headers }
/-- What rendering takes from outside the response. -/
structure Rendering where
  order : List (List Byte × List Byte) → List (List Byte × List Byte)
  dateTime : List Byte

/-- `snprintf` into `char buf[32]`. -/
def snprintf (s : String) : List Byte := (text s).take 31

def appendHeader (output : ByteQueue) (header : List Byte × List Byte) : ByteQueue :=
  (((output.pushBack header.1).pushBack (text ": ")).pushBack header.2).pushBack (text "\r\n")

def appendToBuffer (e : Rendering) (r : HttpResponse) (output : ByteQueue) : ByteQueue :=
  let output := output.pushBack (snprintf ("HTTP/1.1 "++toString r.statusCode.toNat++" "))
  let output := output.pushBack r.statusMessage
  let output := output.pushBack (text "\r\n")
  let output :=
    if r.closeConnection then output.pushBack (text "Connection: close\r\n")
    else
      let output := output.pushBack (snprintf ("Content-Length: "++toString r.body.length++"\r\n"))
      output.pushBack (text "Connection: Keep-Alive\r\n")
  let output := (e.order r.headers).foldl appendHeader output
  let output := output.pushBack e.dateTime
  let output := output.pushBack (text "\r\n")
  output.pushBack r.body

theorem foldl_appendHeader (headers : List (List Byte × List Byte)) (output : ByteQueue) :
    headers.foldl appendHeader output = output++headers.foldl appendHeader [] := by
  induction headers generalizing output with
  | nil => simp
  | cons h headers ih =>
    rw [List.foldl_cons,ih,List.foldl_cons,ih (appendHeader [] h)]
    simp [appendHeader,ByteQueue.pushBack]

theorem appendToBuffer_append (e : Rendering) (r : HttpResponse) (output : ByteQueue) :
    r.appendToBuffer e output = output++r.appendToBuffer e [] := by
  simp only [appendToBuffer]
  rw [foldl_appendHeader]
  conv_rhs => rw [foldl_appendHeader]
  cases r.closeConnection <;> simp [ByteQueue.pushBack]

def reset (_ : HttpResponse) : HttpResponse := ⟨[],.kUnknown,[],[],false⟩

end HttpResponse

abbrev HttpCallback := HttpRequest → HttpResponse → HttpResponse

/-- `getCallback_`, where a registered function may be empty, and the rendering of each response of a connection:
`appendToBuffer` refreshes the Date line whenever it is called. -/
structure HttpServer where
  callbacks : List (List Byte × Option HttpCallback)
  rendering : ℕ → HttpResponse.Rendering

namespace HttpServer

variable (server : HttpServer)

def checkGetCallback (path : List Byte) : Bool := (server.callbacks.lookup (cStr path)).isSome

def getCallback (path : List Byte) : Option HttpCallback := (server.callbacks.lookup (cStr path)).getD none

/-- The check that `onConnection` installs in the context. -/
def checkHeader (request : HttpRequest) : Bool :=
  if request.method = .kGet then server.checkGetCallback request.path else false

def onRequest (req : HttpRequest) (resp : HttpResponse) : HttpResponse :=
  let connection := req.getHeader (text "Connection")
  let close := decide (connection = text "close") ||
    (decide (req.version = .kHttp10) && decide (connection ≠ text "Keep-Alive"))
  let resp := resp.setCloseConnection close
  if req.method = .kGet then
    match server.getCallback req.path with
    | some cb => cb req resp
    | none => resp
  else resp

/-- The variables of `onMessage`, with a log of the requests given to `onRequest`. -/
structure Exchange where
  context : HttpContext
  buf : ByteQueue
  outBuf : ByteQueue
  response : HttpResponse
  needClose : Bool
  handled : List HttpRequest
  deriving DecidableEq, Repr

def badRequest : List Byte := text "HTTP/1.1 400 Bad Request\r\n\r\n"

/-- The loop of `onMessage`, for at most `n` iterations, on a connection that has had `answered` responses. -/
def serveLoop (answered : ℕ) : ℕ → Exchange → Option (Except OutOfRange Exchange)
  | 0, _ => none
  | n+1, x =>
    if x.needClose then some (.ok x)
    else
      match HttpContext.parseRequest server.checkHeader x.context x.buf with
      | none => none
      | some (.error e) => some (.error e)
      | some (.ok (succeed,context,buf)) =>
        if succeed = false then
          serveLoop answered n { x with
            context := context.reset
            buf
            outBuf := x.outBuf.pushBack badRequest
            needClose := true }
        else if context.gotAll then
          let response := server.onRequest context.request x.response
          serveLoop answered n
            { context := context.reset
              buf
              outBuf := response.appendToBuffer (server.rendering (answered+x.handled.length)) x.outBuf
              response := response.reset
              needClose := response.closeConnection
              handled := x.handled++[context.request] }
        else some (.ok { x with context, buf })

/-- Everything up to `conn->send(std::move(outBuf))`: the bytes to send and `needClose`
are in the result. It is `none` when the loop does not end, see `onMessage_lines`. -/
def onMessage (answered : ℕ) (context : HttpContext) (buf : ByteQueue) : Option (Except OutOfRange Exchange) :=
  server.serveLoop answered (buf.length+2) ⟨context,buf,[],.empty,false,[]⟩

end HttpServer
end GgLib
