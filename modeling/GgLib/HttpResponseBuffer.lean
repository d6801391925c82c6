import GgLib.BufferLayout
import GgLib.HttpServer

/-! `HttpResponse::appendToBuffer` on the vector of a `Buffer`, which grows from one `append` to the next. -/
namespace GgLib

namespace Buffer

/-- `append` as long as the string is one and the vector can grow. -/
def append? (b : Buffer) (data : List Byte) : Option Buffer :=
  if data.length < 2^63 ∧ (b.append data).buffer.length < 2^63 then some (b.append data) else none

/-- On a well-formed buffer `f` puts `xs` behind the readable bytes, and it returns when the vector with
`xs` behind it is not too long. -/
structure Appends (f : Buffer → Option Buffer) (xs : List Byte) : Prop where
  puts : ∀ ⦃b b' : Buffer⦄, b.Wf → f b = some b' → b'.Wf ∧ b'.toStringView = b.toStringView++xs
  fits : ∀ ⦃b : Buffer⦄, b.Wf → b.buffer.length+xs.length < 2^63 →
    ∃ b', f b = some b' ∧ b'.buffer.length ≤ b.buffer.length+xs.length

theorem append_length_le {b : Buffer} (h : b.Wf) (data : List Byte) :
    (b.append data).buffer.length ≤ b.buffer.length+data.length := by
  have hle := ensureWritableBytes_length_le b data.length
  have hw := h.writer_le
  have hlen : (b.append data).buffer.length = (b.ensureWritableBytes data.length).buffer.length := by
    simp [append,hasWritten,copyToWrite]
  omega

theorem appends_append (data : List Byte) : Appends (·.append? data) data where
  puts b b' h happend := by
    simp only [append?,Option.ite_none_right_eq_some,Option.some.injEq] at happend
    obtain ⟨⟨hlen,hfit⟩,rfl⟩ := happend
    exact append_spec h hlen hfit
  fits b h hfit := by
    have hle := append_length_le h data
    exact ⟨b.append data,if_pos ⟨by omega,by omega⟩,hle⟩

theorem Appends.bind {f f' : Buffer → Option Buffer} {xs ys : List Byte} (h : Appends f xs)
    (h' : Appends f' ys) : Appends (fun b => (f b).bind f') (xs++ys) where
  puts b b' hw hrun := by
    obtain ⟨b₁,hfirst,hrest⟩ := Option.bind_eq_some_iff.mp hrun
    obtain ⟨hw₁,hv₁⟩ := h.puts hw hfirst
    obtain ⟨hw',hv'⟩ := h'.puts hw₁ hrest
    exact ⟨hw',by rw [hv',hv₁,List.append_assoc]⟩
  fits b hw hfit := by
    rw [List.length_append] at hfit ⊢
    obtain ⟨b₁,hfirst,hle₁⟩ := h.fits hw (by omega)
    obtain ⟨b₂,hrest,hle₂⟩ := h'.fits (h.puts hw hfirst).1 (by omega)
    exact ⟨b₂,by rw [hfirst,Option.bind_some,hrest],by omega⟩

theorem Appends.foldlM {α : Type*} {f : Buffer → α → Option Buffer} {g : α → List Byte}
    (h : ∀ x, Appends (f · x) (g x)) (xs : List α) : Appends (fun b => xs.foldlM f b) (xs.flatMap g) := by
  induction xs with
  | nil =>
    refine ⟨fun b b' hw hrun => ?_,fun b _ _ => ⟨b,rfl,Nat.le_refl _⟩⟩
    cases hrun
    exact ⟨hw,(List.append_nil _).symm⟩
  | cons x xs ih =>
    simp only [List.foldlM_cons,Option.bind_eq_bind,List.flatMap_cons]
    exact (h x).bind ih

end Buffer

namespace HttpResponse

open Buffer

def appendHeaderTo (output : Buffer) (header : List Byte × List Byte) : Option Buffer :=
  (output.append? header.1).bind fun output =>
  (output.append? (text ": ")).bind fun output =>
  (output.append? header.2).bind fun output =>
  output.append? (text "\r\n")

/-- What stands between the status line and the headers. -/
def appendFraming (r : HttpResponse) (output : Buffer) : Option Buffer :=
  if r.closeConnection then output.append? (text "Connection: close\r\n")
  else
    (output.append? (snprintf ("Content-Length: "++toString r.body.length++"\r\n"))).bind fun output =>
    output.append? (text "Connection: Keep-Alive\r\n")

/-- `appendToBuffer`. -/
def appendTo (e : Rendering) (r : HttpResponse) (output : Buffer) : Option Buffer :=
  (output.append? (snprintf ("HTTP/1.1 "++toString r.statusCode.toNat++" "))).bind fun output =>
  (output.append? r.statusMessage).bind fun output =>
  (output.append? (text "\r\n")).bind fun output =>
  (r.appendFraming output).bind fun output =>
  ((e.order r.headers).foldlM appendHeaderTo output).bind fun output =>
  (output.append? e.dateTime).bind fun output =>
  (output.append? (text "\r\n")).bind fun output =>
  output.append? r.body

def headerText (header : List Byte × List Byte) : List Byte := header.1++(text ": "++(header.2++text "\r\n"))

/-- The bytes that stand between the status line and the headers. -/
def framingText (r : HttpResponse) : List Byte :=
  if r.closeConnection then text "Connection: close\r\n"
  else snprintf ("Content-Length: "++toString r.body.length++"\r\n")++text "Connection: Keep-Alive\r\n"

theorem foldl_appendHeader_nil (headers : List (List Byte × List Byte)) :
    headers.foldl appendHeader [] = headers.flatMap headerText := by
  induction headers with
  | nil => rfl
  | cons h headers ih =>
    rw [List.foldl_cons,foldl_appendHeader,ih,List.flatMap_cons]
    simp [appendHeader,headerText,ByteQueue.pushBack]

theorem appendToBuffer_nil (e : Rendering) (r : HttpResponse) :
    r.appendToBuffer e [] = snprintf ("HTTP/1.1 "++toString r.statusCode.toNat++" ")++(r.statusMessage++
      (text "\r\n"++(r.framingText++((e.order r.headers).flatMap headerText++
        (e.dateTime++(text "\r\n"++r.body)))))) := by
  simp only [appendToBuffer]
  rw [foldl_appendHeader,foldl_appendHeader_nil,framingText]
  cases r.closeConnection <;> simp [ByteQueue.pushBack]

theorem appends_appendHeader (header : List Byte × List Byte) : Appends (appendHeaderTo · header) (headerText header) :=
  (appends_append _).bind ((appends_append _).bind ((appends_append _).bind (appends_append _)))

theorem appends_appendFraming (r : HttpResponse) : Appends r.appendFraming r.framingText := by
  unfold appendFraming framingText
  cases r.closeConnection with
  | true =>
    simp only [if_true]
    exact appends_append _
  | false =>
    simp only [Bool.false_eq_true,if_false]
    exact (appends_append _).bind (appends_append _)

/-- On a buffer the function does what it does on the queue of its readable bytes. -/
theorem appends_appendTo (e : Rendering) (r : HttpResponse) : Appends (r.appendTo e) (r.appendToBuffer e []) := by
  rw [appendToBuffer_nil]
  exact (appends_append _).bind <| (appends_append _).bind <| (appends_append _).bind <|
    (appends_appendFraming r).bind <| (Appends.foldlM appends_appendHeader _).bind <|
    (appends_append _).bind <| (appends_append _).bind (appends_append _)

/-- Responses into one buffer, each with the order and the Date line of its own call. -/
def appendAll (rs : List (Rendering × HttpResponse)) (output : Buffer) : Option Buffer :=
  rs.foldlM (fun output p => p.2.appendTo p.1 output) output

def rendered (rs : List (Rendering × HttpResponse)) : ByteQueue := rs.flatMap fun p => p.2.appendToBuffer p.1 []

theorem appends_appendAll (rs : List (Rendering × HttpResponse)) : Appends (appendAll rs) (rendered rs) :=
  Appends.foldlM (fun p : Rendering × HttpResponse => appends_appendTo p.1 p.2) rs

end HttpResponse
end GgLib
