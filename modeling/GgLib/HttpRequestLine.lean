import GgLib.HttpLines
import Mathlib.Data.List.Basic
import Mathlib.Data.List.TakeWhile

/-! The grammar of a request line, and how `processRequestLine` reads it. -/
namespace GgLib

open StringView

namespace HttpRequest

/-- `methodString()` of a request with this method. -/
def Method.text (method : Method) : List Byte := methodString { HttpRequest.empty with method }

/-- What stands for a version in a request line. -/
def Version.text : Version → List Byte
  | .kHttp10 => GgLib.text "HTTP/1.0"
  | .kHttp11 => GgLib.text "HTTP/1.1"
  | .kUnknown => []

theorem space_notMem_text (method : Method) : SP ∉ method.text := by
  cases method <;> decide

theorem Version.text_injective {v v' : Version} (h : v.text = v'.text) : v = v' := by
  cases v <;> cases v' <;> first | rfl | exact absurd h (by decide)

theorem Method.text_injective {m m' : Method} (h : m.text = m'.text) : m = m' := by
  cases m <;> cases m' <;> first | rfl | exact absurd h (by decide)

end HttpRequest

/-- A request line as the types of a request describe it. -/
structure RequestLine where
  method : HttpRequest.Method
  target : List Byte
  version : HttpRequest.Version
  known : method ≠ .kInvalid
  spaceless : SP ∉ target
  versioned : version ≠ .kUnknown

def RequestLine.text (l : RequestLine) : List Byte := l.method.text++SP::(l.target++SP::l.version.text)

namespace StringView

theorem find_zero_append {sv : List Byte} {c : Byte} (h : c ∉ sv) (rest : List Byte) :
    find (sv++c::rest) c 0 = some sv.length := by
  have hnone : sv.findIdx? (· == c) = none := by
    rw [List.findIdx?_eq_none_iff]
    intro x hx
    rw [beq_eq_false_iff_ne]
    exact fun hxc => h (hxc ▸ hx)
  simp [find,List.findIdx?_append,hnone,List.findIdx?_cons]

theorem find_append_right (before sv : List Byte) (c : Byte) :
    find (before++sv) c before.length = (find sv c 0).map (·+before.length) := by
  simp [find]

theorem append_cons_inj {before before' rest rest' : List Byte} {c : Byte} (h : c ∉ before) (h' : c ∉ before')
    (heq : before++c::rest = before'++c::rest') : before = before' ∧ rest = rest' := by
  have hfind := find_zero_append h' rest'
  rw [← heq,find_zero_append h] at hfind
  obtain ⟨hbefore,hrest⟩ := List.append_inj heq (Option.some.inj hfind)
  exact ⟨hbefore,List.tail_eq_of_cons_eq hrest⟩

theorem substr_append_left (sv rest : List Byte) : substr (sv++rest) (some 0) (some sv.length) = .ok sv := by
  rw [substr_some (Nat.zero_le _)]
  simp

theorem substr_append_right (before sv : List Byte) : substr (before++sv) (some before.length) none = .ok sv := by
  rw [substr_some (by simp),List.drop_left]
  simp [List.take_of_length_le]

theorem substr_append_middle (before sv rest : List Byte) {n : ℕ} (hn : n = sv.length) :
    substr (before++(sv++rest)) (some before.length) (some n) = .ok sv := by
  rw [substr_some (by simp),List.drop_left,hn]
  simp

end StringView

theorem RequestLine.text_injective {l l' : RequestLine} (h : l.text = l'.text) : l = l' := by
  obtain ⟨method,target,version,_,hs,_⟩ := l
  obtain ⟨method',target',version',_,hs',_⟩ := l'
  have hm := HttpRequest.space_notMem_text
  obtain ⟨hmethod,hrest⟩ := append_cons_inj (hm method) (hm method') h
  obtain ⟨rfl,hversion⟩ := append_cons_inj hs hs' hrest
  obtain rfl := HttpRequest.Method.text_injective hmethod
  obtain rfl := HttpRequest.Version.text_injective hversion
  rfl

namespace HttpContext

/-- The request that `setTarget` makes. -/
def withTarget (r : HttpRequest) (pathQuery : List Byte) : HttpRequest :=
  if QUESTION ∈ pathQuery then
    (r.setPath (pathQuery.takeWhile (· != QUESTION))).setQuery (pathQuery.dropWhile (· != QUESTION))
  else r.setPath pathQuery

theorem setTarget_eq (r : HttpRequest) (pathQuery : List Byte) :
    setTarget r pathQuery = .ok (withTarget r pathQuery) := by
  rw [withTarget]
  split
  · rename_i h
    obtain ⟨path,query,rfl,hpath⟩ := List.eq_append_cons_of_mem h
    have hall : ∀ x ∈ path, (x != QUESTION) = true := by
      intro x hx
      rw [bne_iff_ne]
      exact fun hxc => hpath (hxc ▸ hx)
    rw [List.takeWhile_append_of_pos hall,List.dropWhile_append_of_pos hall]
    simp [setTarget,find_zero_append hpath,substr_append_left,substr_append_right,bind,Except.bind,pure,Except.pure]
  · rename_i h
    simp [setTarget,find_eq_none.mpr h,pure,Except.pure]

theorem processRequestLine_space {r : HttpRequest} {line : List Byte} (h : SP ∉ line) :
    processRequestLine r line = .ok (false,r) := by
  simp [processRequestLine,find_eq_none.mpr h,pure,Except.pure]

theorem processRequestLine_oneSpace (r : HttpRequest) {m rest : List Byte} (hm : SP ∉ m) (hrest : SP ∉ rest) :
    processRequestLine r (m++SP::rest) = .ok (false,(r.setMethod m).2) := by
  have hlen : m.length+1 = (m++[SP]).length := by simp
  have hsecond : find (m++SP::rest) SP (m.length+1) = none := by
    rw [List.append_cons,hlen,find_append_right,find_eq_none.mpr hrest]
    rfl
  simp only [processRequestLine,find_zero_append hm,substr_append_left,hsecond,bind,Except.bind,pure,Except.pure]
  split <;> rfl

theorem processRequestLine_parts (r : HttpRequest) {m t : List Byte} (hm : SP ∉ m) (ht : SP ∉ t) (v : List Byte) :
    processRequestLine r (m++SP::(t++SP::v)) =
      if (r.setMethod m).1 then .ok (setVersionText (withTarget (r.setMethod m).2 t) v)
      else .ok (false,(r.setMethod m).2) := by
  have hline : m++SP::(t++SP::v) = (m++[SP])++(t++SP::v) := by simp
  have hlen : m.length+1 = (m++[SP]).length := by simp
  have hsecond : find (m++SP::(t++SP::v)) SP (m.length+1) = some (t.length+(m.length+1)) := by
    rw [hline,hlen,find_append_right,find_zero_append ht]
    rfl
  have htarget : substr (m++SP::(t++SP::v)) (some (m.length+1)) (some (t.length+(m.length+1)-(m.length+1))) =
      .ok t := by
    rw [hline,hlen]
    exact substr_append_middle (m++[SP]) t (SP::v) (Nat.add_sub_cancel _ _)
  have hversion : substr (m++SP::(t++SP::v)) (some (t.length+(m.length+1)+1)) none = .ok v := by
    have hcut : m++SP::(t++SP::v) = (m++SP::(t++[SP]))++v := by simp
    have hat : t.length+(m.length+1)+1 = (m++SP::(t++[SP])).length := by
      simp only [List.length_append,List.length_cons,List.length_nil]
      omega
    rw [hcut,hat,substr_append_right]
  simp only [processRequestLine,find_zero_append hm,substr_append_left,hsecond,htarget,hversion,setTarget_eq,bind,
    Except.bind,pure,Except.pure]

theorem setVersionText_text (r : HttpRequest) {version : HttpRequest.Version} (h : version ≠ .kUnknown) :
    setVersionText r version.text = (true,r.setVersion version) := by
  cases version with
  | kUnknown => exact absurd rfl h
  | kHttp10 => rfl
  | kHttp11 => rfl

theorem setVersionText_true {r : HttpRequest} {v : List Byte} (h : (setVersionText r v).1 = true) :
    ∃ version : HttpRequest.Version, version ≠ .kUnknown ∧ v = version.text := by
  rw [setVersionText] at h
  split at h
  · rename_i hv
    obtain ⟨hlen,hversion⟩ := hv
    obtain ⟨digits,rfl⟩ := List.isPrefixOf_iff_prefix.mp hversion
    have hseven : (text "HTTP/1.").length = 7 := by decide
    obtain ⟨digit,rfl⟩ := List.length_eq_one_iff.mp (show digits.length = 1 by rw [List.length_append] at hlen; omega)
    have hdigit : (text "HTTP/1."++[digit])[7]? = some digit := by
      rw [List.getElem?_append_right (by omega),hseven]
      rfl
    rw [hdigit] at h
    split at h
    · rename_i hone
      cases hone
      exact ⟨.kHttp11,by simp,by decide⟩
    · split at h
      · rename_i hzero
        cases hzero
        exact ⟨.kHttp10,by simp,by decide⟩
      · cases h
  · cases h

end HttpContext
namespace HttpRequest

theorem setMethod_text (r : HttpRequest) {method : Method} (h : method ≠ .kInvalid) (hd : method ≠ .kDelete) :
    r.setMethod method.text = (true,{ r with method }) := by
  cases method with
  | kInvalid => exact absurd rfl h
  | kDelete => exact absurd rfl hd
  | kGet => rfl
  | kPost => rfl
  | kHead => rfl
  | kPut => rfl

theorem setMethod_true {m : List Byte} (h : (empty.setMethod m).1 = true) :
    ∃ method : Method, method ≠ .kInvalid ∧ method ≠ .kDelete ∧ m = method.text := by
  by_contra hnone
  push Not at hnone
  have hget : m ≠ GgLib.text "GET" := hnone .kGet (by simp) (by simp)
  have hpost : m ≠ GgLib.text "POST" := hnone .kPost (by simp) (by simp)
  have hhead : m ≠ GgLib.text "HEAD" := hnone .kHead (by simp) (by simp)
  have hput : m ≠ GgLib.text "PUT" := hnone .kPut (by simp) (by simp)
  simp [setMethod,hget,hpost,hhead,hput,empty] at h

/-- The fields that a request line sets. -/
structure Reads (r : HttpRequest) (l : RequestLine) : Prop where
  methodString : r.methodString = l.method.text
  target : r.path++r.query = l.target
  path : QUESTION ∉ r.path
  query : r.query = [] ∨ r.query.head? = some QUESTION
  version : r.version = l.version

end HttpRequest
namespace HttpContext

open HttpRequest (Reads)

theorem withTarget_target (r : HttpRequest) (hr : r.query = []) (t : List Byte) :
    (withTarget r t).path++(withTarget r t).query = t ∧ QUESTION ∉ (withTarget r t).path ∧
      ((withTarget r t).query = [] ∨ (withTarget r t).query.head? = some QUESTION) := by
  rw [withTarget]
  split
  · rename_i h
    refine ⟨List.takeWhile_append_dropWhile,fun hmem => ?_,.inr ?_⟩
    · have := List.mem_takeWhile_imp hmem
      simp at this
    · obtain ⟨path,query,rfl,hpath⟩ := List.eq_append_cons_of_mem h
      have hall : ∀ x ∈ path, (x != QUESTION) = true := by
        intro x hx
        rw [bne_iff_ne]
        exact fun hxc => hpath (hxc ▸ hx)
      show (List.dropWhile _ (path++QUESTION::query)).head? = _
      rw [List.dropWhile_append_of_pos hall]
      simp
  · rename_i h
    have hquery : (r.setPath t).query = [] := hr
    exact ⟨by rw [hquery,List.append_nil]; rfl,h,.inl hquery⟩

theorem processRequestLine_text (l : RequestLine) (hd : l.method ≠ .kDelete) :
    processRequestLine .empty l.text =
      .ok (true,(withTarget { HttpRequest.empty with method := l.method } l.target).setVersion l.version) := by
  rw [RequestLine.text,processRequestLine_parts _ (HttpRequest.space_notMem_text _) l.spaceless,
    HttpRequest.setMethod_text _ l.known hd,if_pos rfl,setVersionText_text _ l.versioned]

theorem withTarget_reads (l : RequestLine) :
    ((withTarget { HttpRequest.empty with method := l.method } l.target).setVersion l.version).Reads l := by
  obtain ⟨htarget,hpath,hquery⟩ := withTarget_target { HttpRequest.empty with method := l.method } rfl l.target
  have hmethod : (withTarget { HttpRequest.empty with method := l.method } l.target).method = l.method := by
    rw [withTarget]
    split <;> rfl
  refine ⟨?_,htarget,hpath,hquery,rfl⟩
  show HttpRequest.methodString _ = HttpRequest.methodString _
  simp only [HttpRequest.methodString,HttpRequest.setVersion,hmethod]

theorem processRequestLine_true {line : List Byte} {r : HttpRequest}
    (h : processRequestLine .empty line = .ok (true,r)) :
    ∃ l : RequestLine, l.method ≠ .kDelete ∧ line = l.text := by
  by_cases hfirst : SP ∈ line
  · obtain ⟨m,rest,rfl,hm⟩ := List.eq_append_cons_of_mem hfirst
    by_cases hsecond : SP ∈ rest
    · obtain ⟨t,v,rfl,ht⟩ := List.eq_append_cons_of_mem hsecond
      rw [processRequestLine_parts _ hm ht] at h
      split at h
      · rename_i hknown
        obtain ⟨method,hne,hd,rfl⟩ := HttpRequest.setMethod_true hknown
        obtain ⟨version,hv,rfl⟩ := setVersionText_true (congrArg Prod.fst (Except.ok.inj h))
        exact ⟨⟨method,t,version,hne,ht,hv⟩,hd,rfl⟩
      · cases h
    · rw [processRequestLine_oneSpace _ hm hsecond] at h
      cases h
  · rw [processRequestLine_space hfirst] at h
    cases h

/-- A fresh request accepts exactly the lines of the grammar, and reads their parts. -/
def ReadsGrammar (line : List Byte) : Prop :=
  ∃ ok r, processRequestLine .empty line = .ok (ok,r) ∧ (ok = true ↔ ∃ l : RequestLine, line = l.text) ∧
    ∀ l : RequestLine, ok = true → line = l.text → r.Reads l

/-- For every line: a fresh request reads the grammar there if and only if the line is not a
line of the grammar with the method DELETE, which `setMethod` does not know. -/
theorem reads_grammar_iff (line : List Byte) :
    ReadsGrammar line ↔ ¬ ∃ l : RequestLine, l.method = .kDelete ∧ line = l.text := by
  constructor
  · rintro ⟨ok,r,h,hok,-⟩ ⟨l,hdelete,hline⟩
    obtain rfl := hok.mpr ⟨l,hline⟩
    obtain ⟨l',hl',hline'⟩ := processRequestLine_true h
    obtain rfl := RequestLine.text_injective (hline.symm.trans hline')
    exact hl' hdelete
  · intro hnot
    by_cases hline : ∃ l : RequestLine, line = l.text
    · obtain ⟨l,rfl⟩ := hline
      have hl : l.method ≠ .kDelete := fun h => hnot ⟨l,h,rfl⟩
      refine ⟨true,_,processRequestLine_text l hl,⟨fun _ => ⟨l,rfl⟩,fun _ => rfl⟩,fun l' _ hl' => ?_⟩
      obtain rfl := RequestLine.text_injective hl'
      exact withTarget_reads l
    · obtain ⟨⟨ok,r⟩,h⟩ := processRequestLine_ok .empty line
      have hok : ok ≠ true := by
        rintro rfl
        obtain ⟨l,-,rfl⟩ := processRequestLine_true h
        exact hline ⟨l,rfl⟩
      exact ⟨ok,r,h,iff_of_false hok hline,fun _ hok' => absurd hok' hok⟩

def deleteLine : RequestLine := ⟨.kDelete,text "/x",.kHttp11,by decide,by decide,by decide⟩

theorem not_reads_grammar : ¬ ∀ line : List Byte, ByteQueue.findCRLF line = none → ReadsGrammar line := by
  intro h
  obtain ⟨ok,r,hr,hok,-⟩ := h (text "DELETE /x HTTP/1.1") (by decide)
  have hline : text "DELETE /x HTTP/1.1" = deleteLine.text := by decide
  have hfalse : processRequestLine .empty (text "DELETE /x HTTP/1.1") = .ok (false,.empty) := by decide +kernel
  cases hfalse.symm.trans hr
  exact absurd (hok.mpr ⟨deleteLine,hline⟩) (by decide)

end HttpContext
end GgLib
