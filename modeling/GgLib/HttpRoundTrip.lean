import GgLib.HttpRequestLine

/-! Writing a request and parsing it: what a client writes comes back field by field, and
the bytes behind it stay in the buffer. -/
namespace GgLib

open StringView ByteQueue

/-- A header that a client may write. -/
structure HeaderField where
  name : List Byte
  value : List Byte
  colonless : COLON ∉ name
  oneLine : CR ∉ name++value ∧ LF ∉ name++value
  nonempty : value ≠ []
  trimmed : value.head? ≠ some SP ∧ value.getLast? ≠ some SP

def HeaderField.text (field : HeaderField) : List Byte := field.name++COLON::SP::field.value

/-- A request that a client may write, with a method that `setMethod` knows. -/
structure ClientRequest where
  method : HttpRequest.Method
  path : List Byte
  query : List Byte
  version : HttpRequest.Version
  headers : List HeaderField
  known : method = .kGet ∨ method = .kPost ∨ method = .kHead ∨ method = .kPut
  pathBytes : SP ∉ path ∧ QUESTION ∉ path ∧ CR ∉ path ∧ LF ∉ path
  queryBytes : SP ∉ query ∧ CR ∉ query ∧ LF ∉ query
  queryStart : query = [] ∨ query.head? = some QUESTION
  versioned : version = .kHttp10 ∨ version = .kHttp11

namespace ClientRequest

def requestLine (m : ClientRequest) : RequestLine where
  method := m.method
  target := m.path++m.query
  version := m.version
  known := by rcases m.known with h | h | h | h <;> simp [h]
  spaceless := by simp [m.pathBytes.1,m.queryBytes.1]
  versioned := by rcases m.versioned with h | h <;> simp [h]

def lines (m : ClientRequest) : List (List Byte) := m.requestLine.text::(m.headers.map (·.text)++[[]])

def text (m : ClientRequest) : List Byte := unlines m.lines

def lastValue (m : ClientRequest) (name : List Byte) : Option (List Byte) :=
  (m.headers.reverse.find? (·.name == name)).map (·.value)

end ClientRequest

namespace ByteQueue

theorem unbroken_of_notMem {line : List Byte} (h : CR ∉ line) : Unbroken line := by
  rw [Unbroken]
  induction line with
  | nil => rfl
  | cons x line ih =>
    simp only [List.mem_cons,not_or] at h
    have hx : x ≠ CR := Ne.symm h.1
    cases line with
    | nil => simp [findCRLF,hx]
    | cons y line =>
      have hrest := ih h.2
      rw [List.cons_append] at hrest
      rw [List.cons_append,List.cons_append,findCRLF,if_neg fun hc => hx hc.1,hrest]
      rfl

theorem unbroken_field {name value : List Byte} (hname : CR ∉ name) (hvalue : CR ∉ value) :
    Unbroken (name++COLON::SP::value) := by
  have hcolon : CR ≠ COLON := by decide
  have hspace : CR ≠ SP := by decide
  refine unbroken_of_notMem ?_
  simp [hname,hvalue,hcolon,hspace]

end ByteQueue

theorem HeaderField.unbroken (field : HeaderField) : Unbroken field.text := by
  have hcr := field.oneLine.1
  simp only [List.mem_append,not_or] at hcr
  exact unbroken_field hcr.1 hcr.2

namespace StringView

theorem findFirstNotOf_append_right (before sv : List Byte) (c : Byte) :
    findFirstNotOf (before++sv) c before.length = (findFirstNotOf sv c 0).map (·+before.length) := by
  simp [findFirstNotOf]

theorem findLastNotOf_of_getLast {sv : List Byte} {c : Byte} (h : sv ≠ []) (hc : sv.getLast? ≠ some c) :
    findLastNotOf sv c = some (sv.length-1) := by
  rw [← List.head?_reverse] at hc
  have hne : sv.reverse ≠ [] := by simpa using h
  obtain ⟨x,rest,hrev⟩ := List.exists_cons_of_ne_nil hne
  rw [hrev] at hc
  have hx : x ≠ c := by simpa using hc
  simp [findLastNotOf,hrev,List.findIdx?_cons,hx]

end StringView
namespace HttpContext

theorem headerLine_text (c : HttpContext) (field : HeaderField) :
    headerLine c field.text = .ok (true,{ c with request := c.request.addHeader field.name field.value }) := by
  obtain ⟨name,value,hcolon,-,hne,hhead,hlast⟩ := field
  have hline : name++COLON::SP::value = (name++[COLON])++(SP::value) := by simp
  have hlen : name.length+1 = (name++[COLON]).length := by simp
  have hfirst : findFirstNotOf (SP::value) SP 0 = some 1 := by
    obtain ⟨x,rest,rfl⟩ := List.exists_cons_of_ne_nil hne
    have hx : x ≠ SP := by simpa using hhead
    simp [findFirstNotOf,List.findIdx?_cons,hx]
  have hbegin : findFirstNotOf (name++COLON::SP::value) SP (name.length+1) = some (name.length+2) := by
    rw [hline,hlen,findFirstNotOf_append_right,hfirst,← hlen]
    exact congrArg some (Nat.add_comm 1 (name.length+1))
  have hend : findLastNotOf (name++COLON::SP::value) SP = some ((name++COLON::SP::value).length-1) := by
    refine findLastNotOf_of_getLast (by simp) ?_
    obtain ⟨x,rest,rfl⟩ := List.exists_cons_of_ne_nil hne
    simpa using hlast
  have hspan : span (some (name.length+2)) (some ((name++COLON::SP::value).length-1)) = some value.length := by
    simp only [span,List.length_append,List.length_cons]
    exact congrArg some (by omega)
  have hvalue : substr (name++COLON::SP::value) (some (name.length+2)) (some value.length) = .ok value := by
    have hcut : name++COLON::SP::value = (name++[COLON,SP])++(value++[]) := by simp
    have hat : name.length+2 = (name++[COLON,SP]).length := by simp
    rw [hcut,hat]
    exact substr_append_middle _ value [] rfl
  simp only [headerLine,HeaderField.text,find_zero_append hcolon,succPos,hbegin,hend,hspan,hvalue,
    substr_append_left,bind,Except.bind,pure,Except.pure]
  rw [if_pos (by simp)]

theorem parseRequest_headerLines (check : HttpRequest → Bool) (headers : List HeaderField) (rest : List Byte)
    {c : HttpContext} (hc : c.state = .kExpectHeaders) :
    parseRequest check c (unlines (headers.map (·.text)++[[]])++rest) =
      some (.ok (true,⟨.kGotAll,headers.foldl (fun r field => r.addHeader field.name field.value) c.request⟩,
        rest)) := by
  induction headers generalizing c with
  | nil =>
    have hnext : nextLine (unlines ([]++[[]])++rest) = some ([],rest) :=
      (unbroken_of_notMem List.not_mem_nil).nextLine rest
    rw [List.map_nil,parseRequest_line check (.inr hc) hnext]
    simp [takeLine,hc,headerLine_no_colon,bind,Except.bind,pure,Except.pure]
  | cons field headers ih =>
    have hnext : nextLine (unlines ((field::headers).map (·.text)++[[]])++rest) =
        some (field.text,unlines (headers.map (·.text)++[[]])++rest) := by
      have := field.unbroken.nextLine (unlines (headers.map (·.text)++[[]])++rest)
      simpa using this
    rw [parseRequest_line check (.inr hc) hnext]
    have htake : takeLine check c field.text =
        .ok (.more { c with request := c.request.addHeader field.name field.value }) := by
      simp [takeLine,hc,headerLine_text,bind,Except.bind,pure,Except.pure]
    rw [htake]
    exact ih (c:={ c with request := c.request.addHeader field.name field.value }) hc

end HttpContext
namespace HttpRequest

theorem lookup_assign {V : Type} (key key' : List Byte) (value : V) (map : List (List Byte × V)) :
    (assign key value map).lookup key' = if key' = key then some value else map.lookup key' := by
  induction map with
  | nil =>
    by_cases h : key' = key
    · simp [assign,h]
    · simp [assign,h,List.lookup_cons,beq_false_of_ne h]
  | cons entry map ih =>
    obtain ⟨k,v⟩ := entry
    rw [assign]
    split
    · rename_i hk
      subst hk
      by_cases h : key' = k
      · simp [h]
      · simp [h,List.lookup_cons,beq_false_of_ne h]
    · rename_i hk
      rw [List.lookup_cons,ih,List.lookup_cons]
      by_cases h : key' = k
      · have hne : key' ≠ key := fun heq => hk (h.symm.trans heq)
        simp [h,hk]
      · simp [beq_false_of_ne h]

theorem lookup_addHeaders (headers : List HeaderField) (r : HttpRequest) (name : List Byte) :
    (headers.foldl (fun r field => r.addHeader field.name field.value) r).headers.lookup name =
      ((headers.reverse.find? (·.name == name)).map (·.value)).or (r.headers.lookup name) := by
  induction headers generalizing r with
  | nil => rfl
  | cons field headers ih =>
    rw [List.foldl_cons,ih,List.reverse_cons,List.find?_append]
    cases hfind : headers.reverse.find? (·.name == name) with
    | some last => simp
    | none =>
      have hassign := lookup_assign field.name name field.value r.headers
      by_cases h : field.name = name
      · rw [if_pos h.symm] at hassign
        simpa [h,addHeader] using hassign
      · rw [if_neg (Ne.symm h)] at hassign
        simpa [h,addHeader] using hassign

theorem addHeaders_line (headers : List HeaderField) (r : HttpRequest) :
    headers.foldl (fun r field => r.addHeader field.name field.value) r =
      { r with headers := (headers.foldl (fun r field => r.addHeader field.name field.value) r).headers } := by
  induction headers generalizing r with
  | nil => rfl
  | cons field headers ih =>
    rw [List.foldl_cons,ih]
    rfl

end HttpRequest
namespace ClientRequest

open HttpContext

theorem unbroken_requestLine (m : ClientRequest) : Unbroken m.requestLine.text := by
  refine unbroken_of_notMem ?_
  have hmethod : ∀ method : HttpRequest.Method, CR ∉ method.text := by
    intro method
    cases method <;> decide
  have hversion : ∀ version : HttpRequest.Version, CR ∉ version.text := by
    intro version
    cases version <;> decide
  have hspace : CR ≠ SP := by decide
  simp [RequestLine.text,requestLine,hmethod,hversion,hspace,m.pathBytes.2.2.1,m.queryBytes.2.1]

theorem withTarget_path_query (m : ClientRequest) {r : HttpRequest} (hr : r.query = []) :
    withTarget r (m.path++m.query) = { r with path := m.path, query := m.query } := by
  have hpath : ∀ x ∈ m.path, (x != QUESTION) = true := by
    intro x hx
    rw [bne_iff_ne]
    exact fun hxq => m.pathBytes.2.1 (hxq ▸ hx)
  rw [withTarget]
  rcases m.queryStart with hquery | hquery
  · rw [hquery,List.append_nil,if_neg m.pathBytes.2.1,← hr]
    rfl
  · obtain ⟨query,hq⟩ := List.head?_eq_some_iff.mp hquery
    rw [hq,if_pos (by simp),List.takeWhile_append_of_pos hpath,List.dropWhile_append_of_pos hpath]
    simp [HttpRequest.setPath,HttpRequest.setQuery]

/-- For every request a client may write and every following bytes: a fresh context, whose
check callback accepts, has got all of it, with the fields it was written from and the last
value of each header, and exactly the following bytes stay in the buffer. -/
theorem parse_text (m : ClientRequest) (rest : List Byte) :
    ∃ c, parseRequest (fun _ => true) fresh (m.text++rest) = some (.ok (true,c,rest)) ∧ c.gotAll = true ∧
      c.request.method = m.method ∧ c.request.path = m.path ∧ c.request.query = m.query ∧
      c.request.version = m.version ∧ ∀ name,
        c.request.headers.lookup name = m.lastValue name ∧ c.request.getHeader name = (m.lastValue name).getD [] := by
  have hdelete : m.requestLine.method ≠ .kDelete := by
    rcases m.known with h | h | h | h <;> simp [requestLine,h]
  have hnext : nextLine (m.text++rest) =
      some (m.requestLine.text,unlines (m.headers.map (·.text)++[[]])++rest) := by
    have := m.unbroken_requestLine.nextLine (unlines (m.headers.map (·.text)++[[]])++rest)
    simpa [text,lines] using this
  have hline : processRequestLine .empty m.requestLine.text =
      .ok (true,⟨m.method,m.version,m.path,m.query,[]⟩) := by
    rw [processRequestLine_text m.requestLine hdelete]
    show Except.ok (true,(withTarget { HttpRequest.empty with method := m.method } (m.path++m.query)).setVersion _) = _
    rw [withTarget_path_query m rfl]
    rfl
  have htake : takeLine (fun _ => true) fresh m.requestLine.text =
      .ok (.more ⟨.kExpectHeaders,⟨m.method,m.version,m.path,m.query,[]⟩⟩) := by
    simp [takeLine,HttpContext.requestLine,fresh,hline,bind,Except.bind,pure,Except.pure]
  have hparse := parseRequest_headerLines (fun _ => true) m.headers rest
    (c:=⟨.kExpectHeaders,⟨m.method,m.version,m.path,m.query,[]⟩⟩) rfl
  rw [HttpRequest.addHeaders_line] at hparse
  have hfirst := parseRequest_line (fun _ => true) (c:=fresh) (.inl rfl) hnext
  rw [htake] at hfirst
  refine ⟨_,hfirst.trans hparse,rfl,rfl,rfl,rfl,rfl,fun name => ?_⟩
  have hlookup := HttpRequest.lookup_addHeaders m.headers ⟨m.method,m.version,m.path,m.query,[]⟩ name
  rw [List.lookup_nil,Option.or_none] at hlookup
  exact ⟨hlookup,congrArg (·.getD []) hlookup⟩

/-- A search with a header that is written twice, and the bytes of a body behind it. -/
def search : ClientRequest where
  method := .kPost
  path := GgLib.text "/search"
  query := GgLib.text "?q=a:b"
  version := .kHttp10
  headers := [⟨GgLib.text "Cookie",GgLib.text "a=1",by decide,by decide,by decide,by decide⟩,
    ⟨GgLib.text "Cookie",GgLib.text "b: 2",by decide,by decide,by decide,by decide⟩]
  known := by decide
  pathBytes := by decide
  queryBytes := by decide
  queryStart := .inr rfl
  versioned := .inl rfl

theorem parse_text_search :
    search.text = GgLib.text "POST /search?q=a:b HTTP/1.0\r\nCookie: a=1\r\nCookie: b: 2\r\n\r\n" ∧
      ∃ c, parseRequest (fun _ => true) fresh (search.text++GgLib.text "body") = some (.ok (true,c,GgLib.text "body")) ∧
        c.gotAll = true ∧ c.request.getHeader (GgLib.text "Cookie") = GgLib.text "b: 2" := by
  obtain ⟨c,hparse,hgot,-,-,-,-,hheader⟩ := parse_text search (GgLib.text "body")
  exact ⟨by decide,c,hparse,hgot,(hheader (GgLib.text "Cookie")).2.trans (by decide)⟩

end ClientRequest
end GgLib
