import GgLib.HttpAnswers
import GgLib.HttpResponseReader
import Mathlib.Data.List.Forall2

/-! A client that writes requests one behind the other, and the server that answers them: which requests reach the
handler, what is sent for them, and what a reader of the replies gets. -/
namespace GgLib

open ByteQueue HttpContext HttpServer LabelledSystem StringView

namespace ClientRequest

/-- The request that the parser checks, which has no headers yet. -/
def checked (m : ClientRequest) : HttpRequest := ⟨m.method,m.version,m.path,m.query,[]⟩

def withHeaders (r : HttpRequest) (headers : List HeaderField) : HttpRequest :=
  headers.foldl (fun r field => r.addHeader field.name field.value) r

def parsed (m : ClientRequest) : HttpRequest := withHeaders m.checked m.headers

variable (server : HttpServer)

/-- What the server sends for the request: a 400 for one that its check refuses. -/
def answer (m : ClientRequest) : Answer :=
  server.answer (if server.checkHeader m.checked then some m.parsed else none)

def keepsOpen (m : ClientRequest) : Bool := !(m.answer server).closes

/-- The requests in front of the first whose answer closes, and that one. -/
def kept (ms : List ClientRequest) : List ClientRequest := ms.takeWhile (keepsOpen server)
def closing (ms : List ClientRequest) : Option ClientRequest := (ms.dropWhile (keepsOpen server)).head?

/-- The responses to requests, each with the rendering of its number on the connection. -/
def replies (answered : ℕ) (ms : List ClientRequest) : List (HttpResponse.Rendering × HttpResponse) :=
  (ms.zipIdx answered).map fun p => (server.rendering p.2,server.onRequest p.1.parsed .empty)

def get (headers : List HeaderField) : ClientRequest :=
  ⟨.kGet,GgLib.text "/plaintext",[],.kHttp11,headers,.inl rfl,by decide,by decide,.inl rfl,.inr rfl⟩

end ClientRequest
end GgLib
