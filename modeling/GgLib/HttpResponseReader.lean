import GgLib.HttpResponseBuffer
import GgLib.HttpRoundTrip

/-!
# A reader of keep-alive responses

The reader takes a status line, header lines up to the first empty one and as many bytes as the first
`Content-Length` says. It is a decoder of frames, so the portions in which the bytes arrive do not matter to it.
-/

namespace GgLib

open StringView ByteQueue

abbrev Header : Type := List Byte × List Byte

/-- A line that is a header, before its CR LF. -/
def Header.line (h : Header) : List Byte := h.1++COLON::SP::h.2

/-- What a reader gets. -/
structure Reply where
  code : ℕ
  message : List Byte
  headers : List Header
  body : List Byte
  deriving DecidableEq, Repr

namespace ResponseReader

def decimal (ds : List Byte) : Option ℕ :=
  if !ds.isEmpty && ds.all fun d => decide (48 ≤ d.toNat) && decide (d.toNat ≤ 57) then
    some (ds.foldl (fun n d => 10*n+(d.toNat-48)) 0)
  else none

/-- The version, the code and the message, with one space between two of them. -/
def statusLine (line : List Byte) : Option (ℕ × List Byte) :=
  if startsWith line (text "HTTP/1.1 ") then
    let line := line.drop 9
    (find line SP 0).bind fun i => (decimal (line.take i)).map fun code => (code,line.drop (i+1))
  else none

def headerField (line : List Byte) : Option Header :=
  (find line COLON 0).bind fun i =>
    if (line.drop (i+1)).head? = some SP then some (line.take i,line.drop (i+2)) else none

/-- Up to the first empty line. -/
def headerFields (q : ByteQueue) : Option (List Header × ByteQueue) :=
  match h : nextLine q with
  | none => none
  | some (line,rest) =>
    have := lineDecoder.shorter q line rest h
    if line = [] then some ([],rest)
    else (headerField line).bind fun field => (headerFields rest).map fun p => (field::p.1,p.2)
termination_by q.length

/-- What the first header of this name says. -/
def contentLength (headers : List Header) : Option ℕ := (headers.lookup (text "Content-Length")).bind decimal

def takeBody (n : ℕ) (q : ByteQueue) : Option (List Byte × ByteQueue) :=
  if n ≤ q.length then some (q.take n,q.drop n) else none

def next (q : ByteQueue) : Option (Reply × ByteQueue) :=
  (nextLine q).bind fun first => (statusLine first.1).bind fun status =>
    (headerFields first.2).bind fun fields => (contentLength fields.1).bind fun n =>
      (takeBody n fields.2).map fun body => (⟨status.1,status.2,fields.1,body.1⟩,body.2)

theorem headerFields_none {q : ByteQueue} (h : nextLine q = none) : headerFields q = none := by
  rw [headerFields]
  split
  · rfl
  · rename_i hs
    rw [h] at hs
    cases hs

theorem headerFields_some {q rest : ByteQueue} {line : List Byte} (h : nextLine q = some (line,rest)) :
    headerFields q = if line = [] then some ([],rest)
      else (headerField line).bind fun field => (headerFields rest).map fun p => (field::p.1,p.2) := by
  rw [headerFields]
  split
  · rename_i hs
    rw [h] at hs
    cases hs
  · rename_i hs
    rw [h] at hs
    cases hs
    rfl

theorem headerFields_cut {q rest : ByteQueue} {fields : List Header} (h : headerFields q = some (fields,rest)) :
    rest.length < q.length ∧ ∀ ys, headerFields (q++ys) = some (fields,rest++ys) := by
  induction q using lineDecoder.induction_on generalizing fields rest with
  | hnone q hq =>
    rw [headerFields_none hq] at h
    cases h
  | hsome q line q' hq ih =>
    have hshort := lineDecoder.shorter q line q' hq
    rw [headerFields_some hq] at h
    split at h
    · rename_i hline
      cases h
      refine ⟨hshort,fun ys => ?_⟩
      rw [headerFields_some (lineDecoder.extends_ q ys line q' hq),if_pos hline]
    · rename_i hline
      obtain ⟨field,hfield,hrest⟩ := Option.bind_eq_some_iff.mp h
      obtain ⟨p,hp,hfields⟩ := Option.map_eq_some_iff.mp hrest
      cases hfields
      obtain ⟨hlt,hcut⟩ := ih hp
      refine ⟨Nat.lt_trans hlt hshort,fun ys => ?_⟩
      rw [headerFields_some (lineDecoder.extends_ q ys line q' hq),if_neg hline,hfield,Option.bind_some,hcut ys]
      rfl

theorem next_cut {q rest : ByteQueue} {reply : Reply} (h : next q = some (reply,rest)) :
    rest.length < q.length ∧ ∀ ys, next (q++ys) = some (reply,rest++ys) := by
  obtain ⟨⟨line,q₁⟩,hline,h⟩ := Option.bind_eq_some_iff.mp h
  obtain ⟨status,hstatus,h⟩ := Option.bind_eq_some_iff.mp h
  obtain ⟨⟨fields,q₂⟩,hfields,h⟩ := Option.bind_eq_some_iff.mp h
  obtain ⟨n,hn,h⟩ := Option.bind_eq_some_iff.mp h
  obtain ⟨body,hbody,h⟩ := Option.map_eq_some_iff.mp h
  cases h
  have hshort : q₁.length < q.length := lineDecoder.shorter q line q₁ hline
  obtain ⟨hlt,hcut⟩ := headerFields_cut hfields
  simp only at hlt
  simp only [takeBody,Option.ite_none_right_eq_some,Option.some.injEq] at hbody
  obtain ⟨hle,rfl⟩ := hbody
  refine ⟨?_,fun ys => ?_⟩
  · rw [List.length_drop]
    omega
  · have htake : takeBody n (q₂++ys) = some (q₂.take n,q₂.drop n++ys) := by
      rw [takeBody,if_pos (by rw [List.length_append]; omega),List.take_append_of_le_length hle,
        List.drop_append_of_le_length hle]
    have hnext : nextLine (q++ys) = some (line,q₁++ys) := lineDecoder.extends_ q ys line q₁ hline
    simp only [next,hnext,Option.bind_some,hstatus,hcut ys,hn,htake,Option.map_some]

def decoder : FrameDecoder Byte Reply where
  next := next
  shorter _ _ _ h := (next_cut h).1
  extends_ _ ys _ _ h := (next_cut h).2 ys

/-! ## Numerals -/

theorem text_append (s t : String) : text (s++t) = text s++text t := by
  simp [text]

theorem toNat_digit {n : ℕ} {c : Char} (hc : c ∈ Nat.toDigits 10 n) :
    48 ≤ c.toNat ∧ c.toNat ≤ 57 ∧ (UInt8.ofNat c.toNat).toNat = c.toNat := by
  have hdigit := Char.isDigit_iff_toNat.mp (Nat.isDigit_of_mem_toDigits (by decide) (by decide) hc)
  have hlow : '0'.toNat = 48 := rfl
  have hhigh : '9'.toNat = 57 := rfl
  rw [hlow,hhigh] at hdigit
  refine ⟨hdigit.1,hdigit.2,?_⟩
  rw [UInt8.toNat_ofNat']
  omega

theorem foldl_digits (cs : List Char) (hcs : ∀ c ∈ cs, (UInt8.ofNat c.toNat).toNat = c.toNat) (init : ℕ) :
    (cs.map fun c => UInt8.ofNat c.toNat).foldl (fun n d => 10*n+(d.toNat-48)) init = Nat.ofDigitChars 10 cs init := by
  induction cs generalizing init with
  | nil => rfl
  | cons c cs ih =>
    rw [List.map_cons,List.foldl_cons,ih fun c hc => hcs c (List.mem_cons_of_mem _ hc),Nat.ofDigitChars_cons,
      hcs c List.mem_cons_self]
    rfl

theorem decimal_text (n : ℕ) : decimal (text (toString n)) = some n := by
  have hne : ((Nat.toDigits 10 n).map fun c => UInt8.ofNat c.toNat).isEmpty = false := by
    rw [List.isEmpty_eq_false_iff,Ne,List.map_eq_nil_iff]
    exact Nat.toDigits_ne_nil
  have hall : ((Nat.toDigits 10 n).map fun c => UInt8.ofNat c.toNat).all
      (fun d => decide (48 ≤ d.toNat) && decide (d.toNat ≤ 57)) = true := by
    rw [List.all_eq_true]
    intro d hd
    obtain ⟨c,hc,rfl⟩ := List.mem_map.mp hd
    obtain ⟨hlow,hhigh,hc'⟩ := toNat_digit hc
    simp [hc',hlow,hhigh]
  rw [text_toString,decimal,if_pos (by simp [hne,hall]),foldl_digits _ fun c hc => (toNat_digit hc).2.2,
    Nat.ofDigitChars_ten_toDigits]

theorem notMem_text_toString {n : ℕ} {b : Byte} (hb : b.toNat < 48) : b ∉ text (toString n) := by
  rw [text_toString]
  intro h
  obtain ⟨c,hc,rfl⟩ := List.mem_map.mp h
  obtain ⟨hlow,-,hc'⟩ := toNat_digit hc
  omega

/-- The numeral of a length fits into the buffer of `snprintf` between the name and the CR LF. -/
theorem snprintf_contentLength {n : ℕ} (hn : n < 10^13) :
    HttpResponse.snprintf ("Content-Length: "++toString n++"\r\n") =
      Header.line (text "Content-Length",text (toString n))++[CR,LF] := by
  have hdigits : (text (toString n)).length ≤ 13 := by
    rw [text_toString,List.length_map]
    exact (Nat.length_toDigits_le_iff (by decide) (by decide)).mpr hn
  have hname : text "Content-Length: " = text "Content-Length"++[COLON,SP] := by decide
  have hcrlf : text "\r\n" = [CR,LF] := by decide
  have hlength : (text "Content-Length").length = 14 := by decide
  rw [HttpResponse.snprintf,text_append,text_append,hname,hcrlf,List.take_of_length_le]
  · simp [Header.line]
  · simp only [List.length_append,hlength,List.length_cons,List.length_nil]
    omega

end ResponseReader

/-! ## What is written and read -/

/-- No CR, LF or NUL. -/
structure Plain (s : List Byte) : Prop where
  cr : CR ∉ s
  lf : LF ∉ s
  nul : 0 ∉ s

structure Header.WellFormed (h : Header) : Prop where
  colonless : COLON ∉ h.1
  name : Plain h.1
  value : Plain h.2

theorem Header.WellFormed.unbroken {h : Header} (hw : h.WellFormed) : Unbroken h.line :=
  unbroken_field hw.name.cr hw.value.cr

/-- A response that keeps the connection, with the Date line and the order of its call. -/
structure HttpResponse.Framed (e : HttpResponse.Rendering) (r : HttpResponse) : Prop where
  keepAlive : r.closeConnection = false
  message : Plain r.statusMessage
  headers : ∀ h ∈ r.headers, Header.WellFormed h
  body : r.body.length < 10^13
  order : (e.order r.headers).Perm r.headers
  date : ∃ date : Header, date.WellFormed ∧ e.dateTime = date.line++[CR,LF]

/-- The headers between the two that say where the response ends and the Date line. -/
def Reply.added (reply : Reply) : List Header := (reply.headers.drop 2).dropLast

structure Reply.Recovers (r : HttpResponse) (reply : Reply) : Prop where
  code : reply.code = r.statusCode.toNat
  message : reply.message = r.statusMessage
  added : reply.added.Perm r.headers
  body : reply.body = r.body

namespace ResponseReader

theorem headerField_line {h : Header} (hw : h.WellFormed) : headerField h.line = some h := by
  obtain ⟨name,value⟩ := h
  have hfind := find_zero_append hw.colonless (SP::value)
  have htail : (name++COLON::SP::value).drop (name.length+1) = SP::value := by
    simp [List.drop_append,List.drop_eq_nil_of_le]
  have hvalue : (name++COLON::SP::value).drop (name.length+2) = value := by
    simp [List.drop_append,List.drop_eq_nil_of_le]
  rw [Header.line,headerField,hfind,Option.bind_some,htail,hvalue,if_pos List.head?_cons]
  exact congrArg (fun name => some (name,value)) List.take_left

theorem headerFields_lines {headers : List Header} (hw : ∀ h ∈ headers, h.WellFormed) (rest : ByteQueue) :
    headerFields (unlines (headers.map Header.line++[[]])++rest) = some (headers,rest) := by
  induction headers with
  | nil =>
    have hnext : nextLine (unlines ([]++[[]])++rest) = some ([],rest) :=
      (unbroken_of_notMem List.not_mem_nil).nextLine rest
    rw [List.map_nil,headerFields_some hnext,if_pos rfl]
  | cons h headers ih =>
    have hh := hw h List.mem_cons_self
    have hnext : nextLine (unlines ((h::headers).map Header.line++[[]])++rest) =
        some (h.line,unlines (headers.map Header.line++[[]])++rest) := by
      have := hh.unbroken.nextLine (unlines (headers.map Header.line++[[]])++rest)
      simpa using this
    have hne : h.line ≠ [] := by simp [Header.line]
    rw [headerFields_some hnext,if_neg hne,headerField_line hh,Option.bind_some,
      ih fun h' hh' => hw h' (List.mem_cons_of_mem h hh')]
    rfl

theorem statusLine_text (code : HttpResponse.HttpStatusCode) (message : List Byte) :
    statusLine (HttpResponse.snprintf ("HTTP/1.1 "++toString code.toNat++" ")++message) =
      some (code.toNat,message) := by
  have hwritten : HttpResponse.snprintf ("HTTP/1.1 "++toString code.toNat++" ") =
      text "HTTP/1.1 "++text (toString code.toNat)++[SP] := by cases code <;> decide
  have hlength : (text "HTTP/1.1 ").length = 9 := by decide
  have hspace : SP ∉ text (toString code.toNat) := notMem_text_toString (by decide)
  have hline : text "HTTP/1.1 "++text (toString code.toNat)++[SP]++message =
      text "HTTP/1.1 "++(text (toString code.toNat)++SP::message) := by simp
  have hstarts : startsWith (text "HTTP/1.1 "++(text (toString code.toNat)++SP::message)) (text "HTTP/1.1 ") =
      true := by
    rw [startsWith,List.isPrefixOf_iff_prefix]
    exact List.prefix_append _ _
  have hdrop : (text "HTTP/1.1 "++(text (toString code.toNat)++SP::message)).drop 9 =
      text (toString code.toNat)++SP::message := List.drop_left' hlength
  have hmessage : (text (toString code.toNat)++SP::message).drop ((text (toString code.toNat)).length+1) = message := by
    simp [List.drop_append,List.drop_eq_nil_of_le]
  rw [hwritten,hline,statusLine,if_pos hstarts,hdrop]
  simp only
  rw [find_zero_append hspace,Option.bind_some,List.take_left,decimal_text,hmessage]
  rfl

end ResponseReader

namespace HttpResponse

theorem headerText_eq (h : Header) : headerText h = h.line++[CR,LF] := by
  have hsep : text ": " = [COLON,SP] := by decide
  have hcrlf : text "\r\n" = [CR,LF] := by decide
  simp [headerText,Header.line,hsep,hcrlf]

theorem flatMap_headerText (headers : List Header) :
    headers.flatMap headerText = unlines (headers.map Header.line) := by
  rw [funext headerText_eq,unlines,List.flatMap_map]

def firstLine (r : HttpResponse) : List Byte :=
  snprintf ("HTTP/1.1 "++toString r.statusCode.toNat++" ")++r.statusMessage

def fields (e : Rendering) (r : HttpResponse) (date : Header) : List Header :=
  (text "Content-Length",text (toString r.body.length))::(text "Connection",text "Keep-Alive")::
    (e.order r.headers++[date])

theorem appendToBuffer_lines {e : Rendering} {r : HttpResponse} (h : Framed e r) {date : Header}
    (hdate : e.dateTime = date.line++[CR,LF]) :
    r.appendToBuffer e [] = r.firstLine++[CR,LF]++(unlines ((r.fields e date).map Header.line++[[]])++r.body) := by
  have hcrlf : text "\r\n" = [CR,LF] := by decide
  have hconnection : text "Connection: Keep-Alive\r\n" =
      Header.line (text "Connection",text "Keep-Alive")++[CR,LF] := by decide
  have hframing : r.framingText = Header.line (text "Content-Length",text (toString r.body.length))++[CR,LF]++
      (Header.line (text "Connection",text "Keep-Alive")++[CR,LF]) := by
    rw [framingText,if_neg (by simp [h.keepAlive]),ResponseReader.snprintf_contentLength h.body,hconnection]
  rw [appendToBuffer_nil,hframing,flatMap_headerText,hdate,hcrlf]
  simp only [fields,firstLine,List.map_cons,List.map_append,List.map_nil,List.cons_append,unlines_cons,
    unlines_append,unlines_nil]
  simp only [List.append_assoc,List.cons_append,List.nil_append,List.append_nil]

theorem fields_wellFormed {e : Rendering} {r : HttpResponse} (h : Framed e r) {date : Header}
    (hdate : date.WellFormed) : ∀ field ∈ r.fields e date, field.WellFormed := by
  have hcolon : COLON ∉ text "Content-Length" := by decide
  have hname : Plain (text "Content-Length") := ⟨by decide,by decide,by decide⟩
  have hnumeral : Plain (text (toString r.body.length)) := by
    constructor <;> exact ResponseReader.notMem_text_toString (by decide)
  have hlength : Header.WellFormed (text "Content-Length",text (toString r.body.length)) := ⟨hcolon,hname,hnumeral⟩
  have hconnection : Header.WellFormed (text "Connection",text "Keep-Alive") :=
    ⟨by decide,⟨by decide,by decide,by decide⟩,⟨by decide,by decide,by decide⟩⟩
  intro field hfield
  simp only [fields,List.mem_cons,List.mem_append,List.not_mem_nil,or_false] at hfield
  rcases hfield with rfl | rfl | hfield | rfl
  · exact hlength
  · exact hconnection
  · exact h.headers field (h.order.mem_iff.mp hfield)
  · exact hdate

theorem unbroken_firstLine {e : Rendering} {r : HttpResponse} (h : Framed e r) : Unbroken r.firstLine := by
  have hcode : CR ∉ snprintf ("HTTP/1.1 "++toString r.statusCode.toNat++" ") := by cases r.statusCode <;> decide
  refine unbroken_of_notMem ?_
  rw [firstLine,List.mem_append,not_or]
  exact ⟨hcode,h.message.cr⟩

end HttpResponse

namespace ResponseReader

open HttpResponse

theorem next_appendToBuffer {e : Rendering} {r : HttpResponse} (h : Framed e r) (rest : ByteQueue) :
    ∃ reply, next (r.appendToBuffer e []++rest) = some (reply,rest) ∧ reply.Recovers r := by
  obtain ⟨date,hdate,htime⟩ := h.date
  have hfirst : nextLine (r.appendToBuffer e []++rest) =
      some (r.firstLine,unlines ((r.fields e date).map Header.line++[[]])++(r.body++rest)) := by
    have hbytes : r.appendToBuffer e []++rest =
        r.firstLine++[CR,LF]++(unlines ((r.fields e date).map Header.line++[[]])++(r.body++rest)) := by
      rw [appendToBuffer_lines h htime]
      simp only [List.append_assoc]
    rw [hbytes]
    exact (unbroken_firstLine h).nextLine _
  have hstatus : statusLine r.firstLine = some (r.statusCode.toNat,r.statusMessage) := statusLine_text _ _
  have hlength : contentLength (r.fields e date) = some r.body.length := by
    rw [contentLength,fields,List.lookup_cons_self,Option.bind_some,decimal_text]
  have hbody : takeBody r.body.length (r.body++rest) = some (r.body,rest) := by
    rw [takeBody,if_pos (by simp),List.take_left,List.drop_left]
  refine ⟨⟨r.statusCode.toNat,r.statusMessage,r.fields e date,r.body⟩,?_,rfl,rfl,?_,rfl⟩
  · simp only [next,hfirst,Option.bind_some,hstatus,headerFields_lines (fields_wellFormed h hdate),hlength,hbody,
      Option.map_some]
  · have hadded : Reply.added ⟨r.statusCode.toNat,r.statusMessage,r.fields e date,r.body⟩ = e.order r.headers := by
      simp [Reply.added,fields]
    rw [hadded]
    exact h.order

theorem frames_rendered {rs : List (Rendering × HttpResponse)} (h : ∀ p ∈ rs, Framed p.1 p.2) :
    ∃ replies, decoder.frames (rendered rs) = (replies,[]) ∧
      List.Forall₂ (fun p reply => Reply.Recovers p.2 reply) rs replies := by
  induction rs with
  | nil => exact ⟨[],decoder.frames_none rfl,.nil⟩
  | cons p rs ih =>
    obtain ⟨replies,hframes,hreplies⟩ := ih fun p' hp' => h p' (List.mem_cons_of_mem p hp')
    obtain ⟨reply,hnext,hreply⟩ := next_appendToBuffer (h p List.mem_cons_self) (rendered rs)
    refine ⟨reply::replies,?_,.cons hreply hreplies⟩
    have hcut : decoder.next (rendered (p::rs)) = some (reply,rendered rs) := by
      rw [rendered,List.flatMap_cons]
      exact hnext
    rw [decoder.frames_some hcut,hframes]

/-- Keep-alive responses appended to a buffer, which takes them while its vector can grow: what comes behind
the bytes from before is cut into replies that recover the responses one by one, up to the end of the buffer. -/
theorem responses_recovered {rs : List (Rendering × HttpResponse)} (h : ∀ p ∈ rs, Framed p.1 p.2) {b : Buffer}
    (hb : b.Wf) : (b.buffer.length+(rendered rs).length < 2^63 → ∃ b', appendAll rs b = some b') ∧
      ∀ b', appendAll rs b = some b' → b'.Wf ∧ ∃ q replies, b'.toStringView = b.toStringView++q ∧
        decoder.frames q = (replies,[]) ∧ List.Forall₂ (fun p reply => Reply.Recovers p.2 reply) rs replies := by
  constructor
  · intro hfit
    obtain ⟨b',hrun,-⟩ := (appends_appendAll rs).fits hb hfit
    exact ⟨b',hrun⟩
  · intro b' hrun
    obtain ⟨hw,hv⟩ := (appends_appendAll rs).puts hb hrun
    obtain ⟨replies,hframes,hreplies⟩ := frames_rendered h
    exact ⟨hw,rendered rs,replies,hv,hframes,hreplies⟩

def epoch : Header := (text "Date",text "Thu, 01 Jan 1970 00:00:00 GMT")

/-- A body that looks like the end of headers, and a response without one. -/
def crlfBody : List (Rendering × HttpResponse) :=
  [(⟨id,epoch.line++[CR,LF]⟩,⟨[(text "Server",text "gg_lib")],.k200Ok,text "OK",[CR,LF,CR,LF],false⟩),
    (⟨List.reverse,epoch.line++[CR,LF]⟩,⟨[],.k404NotFound,text "Not Found",[],false⟩)]

theorem framed_crlfBody : ∀ p ∈ crlfBody, Framed p.1 p.2 := by
  have hplain : ∀ s ∈ [text "OK",text "Not Found",text "Server",text "gg_lib",epoch.1,epoch.2], Plain s := by
    intro s hs
    have hbytes : CR ∉ s ∧ LF ∉ s ∧ 0 ∉ s := by
      revert s
      decide
    exact ⟨hbytes.1,hbytes.2.1,hbytes.2.2⟩
  have hepoch : epoch.WellFormed := ⟨by decide,hplain _ (by simp),hplain _ (by simp)⟩
  have hserver : Header.WellFormed (text "Server",text "gg_lib") := ⟨by decide,hplain _ (by simp),hplain _ (by simp)⟩
  intro p hp
  simp only [crlfBody,List.mem_cons,List.not_mem_nil,or_false] at hp
  rcases hp with rfl | rfl
  · refine ⟨rfl,hplain _ (by simp),?_,by simp,.refl _,epoch,hepoch,rfl⟩
    intro h hh
    rw [List.mem_singleton.mp hh]
    exact hserver
  · exact ⟨rfl,hplain _ (by simp),fun h hh => absurd hh List.not_mem_nil,by simp,.refl _,epoch,hepoch,rfl⟩

theorem responses_recovered_crlfBody :
    ∃ b', appendAll crlfBody (Buffer.create 8) = some b' ∧ ∃ q replies,
      b'.toStringView = (Buffer.create 8).toStringView++q ∧ decoder.frames q = (replies,[]) ∧
        List.Forall₂ (fun p reply => Reply.Recovers p.2 reply) crlfBody replies := by
  have hwf : (Buffer.create 8).Wf := (Buffer.create_spec (by decide)).1
  obtain ⟨hreturns,hrecovered⟩ := responses_recovered framed_crlfBody hwf
  obtain ⟨b',hb'⟩ := hreturns (by decide +kernel)
  exact ⟨b',hb',(hrecovered b' hb').2⟩

end ResponseReader
end GgLib
