import GgLib.TcpServerLife
import Mathlib.Algebra.Group.Nat.Defs

/-! A step of a loop touches one connection, a new one gets a name that no other has. Hence
the server and the loops agree on each connection in every state that a run reaches. -/
namespace GgLib

open LabelledSystem

namespace TcpServer

theorem connName_inj {s : TcpServer} {m n : ℕ} (hm : m < 2^31) (hn : n < 2^31)
    (h : s.connName (BitVec.ofNat 32 m) = s.connName (BitVec.ofNat 32 n)) : m = n := by
  have htoInt : ∀ k < 2^31, (BitVec.ofNat 32 k).toInt = k := by
    intro k hk
    have hnat : (BitVec.ofNat 32 k).toNat = k := by
      rw [BitVec.toNat_ofNat]
      exact Nat.mod_eq_of_lt (by omega)
    rw [BitVec.toInt_eq_toNat_of_lt (by omega),hnat]
  have hformat : ∀ k : ℕ, formatInt k = Nat.toDigits 10 k := by
    intro k
    rw [formatInt,if_neg (by omega)]
    rfl
  rw [connName,connName,List.append_cancel_left_eq,htoInt m hm,htoInt n hn,hformat,hformat] at h
  have hparsed := congrArg (fun digits => Nat.ofDigitChars 10 digits 0) h
  simpa only [Nat.ofDigitChars_ten_toDigits] using hparsed

theorem Conn.HandedOut.ne_create {c : Conn} (h : c.HandedOut) (wcc : Option TcpConnection.WriteCompleteCallback) :
    c.conn ≠ .create none (8*1024*1024) wcc := by
  intro hconn
  rw [Conn.HandedOut,hconn] at h
  cases h

namespace World

/-- Nothing but what concerns the connection `i`, of that name, may change. -/
structure Touches (i : ℕ) (name : List Char) (w w' : World) : Prop where
  queue : ∀ j, j ≠ i → ∀ loop, w'.queueOf j loop = w.queueOf j loop
  todo : ∀ j, j ≠ i → ∀ loop, w'.todoOf j loop = w.todoOf j loop
  history : ∀ j, j ≠ i → w'.historyOf j = w.historyOf j
  conns : ∀ j, j ≠ i → w'.conns[j]? = w.conns[j]?
  length : w'.conns.length = w.conns.length
  connName : w'.server.connName = w.server.connName
  nextConnId : w'.server.nextConnId = w.server.nextConnId
  connections : w'.server.connections = w.server.connections ∨
    w'.server.connections = Function.update w.server.connections name none

namespace Touches

variable {w w' w'' : World} {i : ℕ} {name : List Char} {c : Conn}

theorem record {ev : Event} (h : ev.target = i) : Touches i name w (w.record ev) := by
  refine ⟨fun _ _ _ => rfl,fun _ _ _ => rfl,fun j hj => ?_,fun _ _ => rfl,rfl,rfl,rfl,.inl rfl⟩
  rw [record_historyOf,if_neg (fun hij => hj (hij.symm.trans h)),List.append_nil]

theorem queueInLoop {loop : ℕ} {f : Functor} (h : f.target = i) : Touches i name w (w.queueInLoop loop f) := by
  refine ⟨fun j hj loop' => ?_,fun _ _ _ => rfl,fun _ _ => rfl,fun _ _ => rfl,rfl,rfl,rfl,.inl rfl⟩
  rw [queueInLoop_queueOf,if_neg (fun hij => hj (hij.2.symm.trans h)),List.append_nil]

theorem setTodo {loop : ℕ} {tasks : List (ℕ × TcpConnection.Task)}
    (h : ∀ j, j ≠ i → tasks.filter (·.1 = j) = w.todoOf j loop) : Touches i name w (w.setTodo loop tasks) := by
  refine ⟨fun _ _ _ => rfl,fun j hj loop' => ?_,fun _ _ => rfl,fun _ _ => rfl,rfl,rfl,rfl,.inl rfl⟩
  rw [setTodo_todoOf]
  split
  · rename_i hl
    rw [hl]
    exact h j hj
  · rfl

theorem take {loop : ℕ} {f : Functor} {fs : List Functor} (hqueue : w.queue loop = f::fs) (h : f.target = i) :
    Touches i name w { w with queue := Function.update w.queue loop fs } := by
  refine ⟨fun j hj loop' => ?_,fun _ _ _ => rfl,fun _ _ => rfl,fun _ _ => rfl,rfl,rfl,rfl,.inl rfl⟩
  rw [queueOf,queueOf]
  by_cases hl : loop' = loop
  · rw [hl,hqueue,List.filter_cons_of_neg (by simpa [h] using Ne.symm hj)]
    simp
  · simp [hl]

theorem set : Touches i name w { w with conns := w.conns.set i c } :=
  ⟨fun _ _ _ => rfl,fun _ _ _ => rfl,fun _ _ => rfl,fun _ hj => List.getElem?_set_ne (Ne.symm hj),
    List.length_set,rfl,rfl,.inl rfl⟩

theorem store {p : TcpConnection × List TcpConnection.Task} : Touches i name w (w.store i c p) := by
  refine ⟨fun j hj loop => ?_,fun j hj loop => ?_,fun _ _ => rfl,fun _ hj => List.getElem?_set_ne (Ne.symm hj),
    List.length_set,rfl,rfl,.inl rfl⟩
  · rw [store_queueOf,if_neg (fun hij => hj hij.2.symm),List.append_nil]
  · rw [store_todoOf,if_neg (fun hij => hj hij.2.symm),List.nil_append]

theorem trans (h : Touches i name w w') (h' : Touches i name w' w'') : Touches i name w w'' := by
  refine ⟨fun j hj loop => ?_,fun j hj loop => ?_,fun j hj => ?_,fun j hj => ?_,?_,?_,?_,?_⟩
  · rw [h'.queue j hj,h.queue j hj]
  · rw [h'.todo j hj,h.todo j hj]
  · rw [h'.history j hj,h.history j hj]
  · rw [h'.conns j hj,h.conns j hj]
  · rw [h'.length,h.length]
  · rw [h'.connName,h.connName]
  · rw [h'.nextConnId,h.nextConnId]
  · rcases h'.connections with heq' | heq' <;> rcases h.connections with heq | heq <;> rw [heq',heq]
    · exact .inl rfl
    · exact .inr rfl
    · exact .inr rfl
    · rw [Function.update_idem]
      exact .inr rfl

theorem removeConnectionInLoop : Touches i c.name w (w.removeConnectionInLoop i c) := by
  have herase : Touches i c.name w
      { w with server := { w.server with connections := Function.update w.server.connections c.name none } } :=
    ⟨fun _ _ _ => rfl,fun _ _ _ => rfl,fun _ _ => rfl,fun _ _ => rfl,rfl,rfl,rfl,.inr rfl⟩
  exact (herase.trans (queueInLoop rfl)).trans (record rfl)

theorem removeConnection : Touches i c.name w (w.removeConnection i c) := by
  rw [World.removeConnection]
  split
  · exact removeConnectionInLoop
  · exact queueInLoop rfl

theorem connectEstablished : Touches i name w (w.connectEstablished i c) := store.trans (record rfl)

theorem runTask {http : Option HttpServer} {loop : ℕ} {t : TcpConnection.Task} {e : Choice}
    (h : w.runTask http loop i t e c = some w') : Touches i c.name w w' := by
  rw [World.runTask] at h
  split at h
  · cases h
    exact removeConnection
  · split at h
    · cases h
    · obtain ⟨p,-,rfl⟩ := Option.map_eq_some_iff.mp h
      split
      · exact store.trans (record rfl)
      · exact store

end Touches

/-- The record and the numbers of the server are those of the connections it made. -/
structure Registered (w : World) : Prop where
  queue : ∀ i, w.conns.length ≤ i → ∀ loop, w.queueOf i loop = []
  todo : ∀ i, w.conns.length ≤ i → ∀ loop, w.todoOf i loop = []
  history : ∀ i, w.conns.length ≤ i → w.historyOf i = []
  names : ∀ i c, w.conns[i]? = some c → c.name = w.server.connName (BitVec.ofNat 32 (i+1))
  nextConnId : w.server.nextConnId = BitVec.ofNat 32 (w.conns.length+1)
  entries : ∀ name i, w.server.connections name = some i → ∃ c, w.conns[i]? = some c ∧ c.name = name

structure Consistent (w : World) : Prop extends Registered w where
  balanced : ∀ i c, w.conns[i]? = some c → w.Balanced i [] c

theorem Registered.unique {w : World} (h : w.Registered) (hlt : w.conns.length < 2^31) {i j : ℕ} {c c' : Conn}
    (hi : w.conns[i]? = some c) (hj : w.conns[j]? = some c') (hname : c.name = c'.name) : i = j := by
  have hilt := (List.getElem?_eq_some_iff.mp hi).1
  have hjlt := (List.getElem?_eq_some_iff.mp hj).1
  rw [h.names i c hi,h.names j c' hj] at hname
  exact Nat.succ.inj (connName_inj (by omega) (by omega) hname)

/-- The connections that are not touched stay as they are. -/
theorem Registered.touch {w w' : World} {i : ℕ} {c c' : Conn} (h : w.Registered) (hlt : w.conns.length < 2^31)
    (hothers : ∀ j, j ≠ i → ∀ c, w.conns[j]? = some c → w.Balanced j [] c) (hget : w.conns[i]? = some c)
    (htouch : Touches i c.name w w') (hget' : w'.conns[i]? = some c') (hname : c'.name = c.name)
    (hbalanced : w'.Balanced i [] c') : w'.Consistent := by
  have hi := (List.getElem?_eq_some_iff.mp hget).1
  have hstay : ∀ (j : ℕ) (cj : Conn), w'.conns[j]? = some cj →
      ∃ cj' : Conn, w.conns[j]? = some cj' ∧ cj.name = cj'.name := by
    intro j cj hj
    by_cases hij : j = i
    · subst hij
      cases hget'.symm.trans hj
      exact ⟨c,hget,hname⟩
    · rw [htouch.conns j hij] at hj
      exact ⟨cj,hj,rfl⟩
  have hentries : ∀ name j, w'.server.connections name = some j → w.server.connections name = some j := by
    intro name j hj
    rcases htouch.connections with heq | heq <;> rw [heq] at hj
    · exact hj
    · rw [Function.update_apply] at hj
      split at hj
      · cases hj
      · exact hj
  refine ⟨⟨fun j hj loop => ?_,fun j hj loop => ?_,fun j hj => ?_,fun j cj hj => ?_,?_,fun name j hj => ?_⟩,
    fun j cj hj => ?_⟩
  · rw [htouch.length] at hj
    rw [htouch.queue j (by omega),h.queue j hj]
  · rw [htouch.length] at hj
    rw [htouch.todo j (by omega),h.todo j hj]
  · rw [htouch.length] at hj
    rw [htouch.history j (by omega),h.history j hj]
  · obtain ⟨cj',hj',heq⟩ := hstay j cj hj
    rw [heq,htouch.connName,h.names j cj' hj']
  · rw [htouch.nextConnId,htouch.length,h.nextConnId]
  · obtain ⟨cj,hj',rfl⟩ := h.entries name j (hentries name j hj)
    by_cases hij : j = i
    · subst hij
      cases hget.symm.trans hj'
      exact ⟨c',hget',hname⟩
    · rw [← htouch.conns j hij] at hj'
      exact ⟨cj,hj',rfl⟩
  · by_cases hij : j = i
    · subst hij
      cases hget'.symm.trans hj
      exact hbalanced
    · rw [htouch.conns j hij] at hj
      refine (hothers j hij cj hj).frame (htouch.queue j hij) (htouch.todo j hij) (htouch.history j hij) ?_
      rcases htouch.connections with heq | heq <;> rw [heq]
      exact Function.update_of_ne (fun hsame => hij (h.unique hlt hj hget hsame)) ..

/-- What a step does to the connection that it touches. -/
def Acts (w w' : World) : Prop :=
  ∃ i c, w.conns[i]? = some c ∧ Touches i c.name w w' ∧
    (w.Balanced i [] c → ∃ c', w'.conns[i]? = some c' ∧ c'.name = c.name ∧ w'.Balanced i [] c')

theorem acts_turnTo {w : World} {i : ℕ} {c : Conn} (hget : w.conns[i]? = some c)
    (hc : ∀ wcc, c.conn ≠ .create none (8*1024*1024) wcc) (ts : List TcpConnection.Task)
    (hts : ∀ t ∈ ts, t.destroys = false ∧ t ≠ .closeCallback) :
    w.Acts (w.setTodo c.loop (ts.map (Prod.mk i)++w.todo c.loop)) := by
  refine ⟨i,c,hget,.setTodo fun j hj => ?_,fun h => ⟨c,hget,rfl,h.turnTo hc ts hts⟩⟩
  have hnone : (ts.map (Prod.mk i)).filter (·.1 = j) = [] := by
    simp [List.filter_map,Function.comp_def,Ne.symm hj]
  rw [List.filter_append,hnone,List.nil_append,todoOf]

theorem acts_setState {w : World} {i : ℕ} {c : Conn} (hget : w.conns[i]? = some c) (hc : c.HandedOut)
    (state : TcpConnection.StateE) :
    w.Acts { w with conns := w.conns.set i { c with conn := c.conn.setState state } } := by
  have hlt := (List.getElem?_eq_some_iff.mp hget).1
  refine ⟨i,c,hget,.set,fun h => ⟨_,List.getElem?_set_self hlt,rfl,?_⟩⟩
  refine h.act [] [] (h.notNew hc.ne_create) rfl rfl h.flushed (fun loop => ?_) (fun loop => ?_) rfl rfl
    List.not_mem_nil nofun rfl
  · rw [List.map_nil,ite_self,List.append_nil]
    rfl
  · rw [List.map_nil,ite_self,List.nil_append]
    rfl

theorem acts_queueInLoop {w : World} {i : ℕ} {c : Conn} (hget : w.conns[i]? = some c) (hc : c.HandedOut)
    {f : TcpConnection.Functor} (hf : f ≠ .connectDestroyed) : w.Acts (w.queueInLoop c.loop (.conn i f)) := by
  refine ⟨i,c,hget,.queueInLoop rfl,fun h => ⟨c,hget,rfl,?_⟩⟩
  refine h.act [f] [] (h.notNew hc.ne_create) rfl rfl h.flushed (fun loop => ?_) (fun loop => ?_) rfl rfl
    (by simpa using Ne.symm hf) nofun rfl
  · rw [queueInLoop_queueOf]
    simp [Functor.target]
  · rw [List.map_nil,ite_self,List.nil_append]
    rfl

theorem acts_functor {w w' : World} {loop : ℕ} {f : Functor} {fs : List Functor} (htodo : w.todo loop = [])
    (hqueue : w.queue loop = f::fs)
    (h : runFunctor { w with queue := Function.update w.queue loop fs } loop f = some w') : w.Acts w' := by
  cases f with
  | connectEstablished i =>
    obtain ⟨c,hget,rfl⟩ := Option.map_eq_some_iff.mp h
    have hlt := (List.getElem?_eq_some_iff.mp hget).1
    exact ⟨i,c,hget,(Touches.take hqueue rfl).trans .connectEstablished,fun hb =>
      ⟨_,List.getElem?_set_self hlt,rfl,(hb.take hqueue rfl).connectEstablished⟩⟩
  | removeConnectionInLoop i =>
    obtain ⟨c,hget,rfl⟩ := Option.map_eq_some_iff.mp h
    exact ⟨i,c,hget,(Touches.take hqueue rfl).trans .removeConnectionInLoop,fun hb =>
      ⟨c,hget,rfl,(hb.take hqueue rfl).removeConnectionInLoop⟩⟩
  | conn i f =>
    obtain ⟨c,hget,rfl⟩ := Option.map_eq_some_iff.mp h
    refine ⟨i,c,hget,(Touches.take hqueue rfl).trans (.setTodo fun j hj => ?_),fun hb => ⟨c,hget,rfl,?_⟩⟩
    · have hij : i ≠ j := fun hij => hj hij.symm
      simp [todoOf,htodo,hij]
    · have hloop : loop = c.loop := by
        by_contra hne
        have hmem : Functor.conn i f ∈ w.queueOf i loop := by
          rw [queueOf,hqueue,List.filter_cons_of_pos (by simp [Functor.target])]
          exact List.mem_cons_self
        cases hb.functors loop hne _ hmem
      subst hloop
      refine (hb.take hqueue rfl).goOn ?_
      simp [todoOf,htodo]

theorem handleEvent_tasks (revents : BitVec 32) :
    ∀ t ∈ (Channel.handleEventWithGuard revents).map TcpConnection.Task.callback,
      t.destroys = false ∧ t ≠ .closeCallback := by
  intro t ht
  obtain ⟨cb,-,rfl⟩ := List.mem_map.mp ht
  exact ⟨rfl,nofun⟩

theorem step_cases {http : Option HttpServer} {w w' : World} {l : Label} (h : step http w l = some w') :
    w' = w.newConnection ∨ w.Acts w' := by
  cases l with
  | newConnection =>
    rw [step] at h
    split at h
    · cases h
      exact .inl rfl
    · cases h
  | dispatch i revents =>
    rw [step] at h
    obtain ⟨c,hget,h⟩ := Option.bind_eq_some_iff.mp h
    split at h
    · rename_i hcond
      cases h
      have hc : ∀ wcc, c.conn ≠ .create none (8*1024*1024) wcc := by
        intro wcc hconn
        rw [hconn] at hcond
        cases hcond.2
      have hact := acts_turnTo hget hc _ (handleEvent_tasks revents)
      rw [hcond.1,List.append_nil,List.map_map] at hact
      exact .inr hact
    · cases h
  | timer i k =>
    rw [step] at h
    obtain ⟨c,hget,h⟩ := Option.bind_eq_some_iff.mp h
    split at h
    · rename_i hcond
      cases h
      have hc : ∀ wcc, c.conn ≠ .create none (8*1024*1024) wcc := by
        intro wcc hconn
        rw [hconn] at hcond
        exact absurd hcond.2 (Nat.not_lt_zero k)
      have hact := acts_turnTo hget hc [.timer k] (by simp [TcpConnection.Task.destroys])
      rw [hcond.1] at hact
      exact .inr hact
    · cases h
  | functor loop =>
    rw [step] at h
    split at h
    · exact .inr (acts_functor ‹_› ‹_› h)
    · cases h
  | task loop e =>
    rw [step] at h
    split at h
    · rename_i i t ts htodo
      obtain ⟨c,hget,h⟩ := Option.bind_eq_some_iff.mp h
      refine .inr ⟨i,c,hget,?_,fun hb => hb.runTask hget htodo h⟩
      refine Touches.trans (.setTodo fun j hj => ?_) (.runTask h)
      rw [todoOf,htodo,List.filter_cons_of_neg (by simpa using Ne.symm hj)]
    · cases h
  | call i a =>
    rw [step] at h
    obtain ⟨c,hget,h⟩ := Option.bind_eq_some_iff.mp h
    split at h
    · rename_i hcond
      cases h
      refine .inr (acts_turnTo hget hcond.1.ne_create [.call a] fun t ht => ?_)
      rw [List.mem_singleton.mp ht]
      refine ⟨?_,by simp⟩
      cases a <;> first | rfl | exact absurd rfl hcond.2
    · cases h
  | setState i =>
    rw [step] at h
    obtain ⟨c,hget,h⟩ := Option.bind_eq_some_iff.mp h
    split at h
    · cases h
      exact .inr (acts_setState hget ‹_› _)
    · cases h
  | queueInLoop i f =>
    rw [step] at h
    obtain ⟨c,hget,h⟩ := Option.bind_eq_some_iff.mp h
    split at h
    · rename_i hcond
      cases h
      exact .inr (acts_queueInLoop hget hcond.1 hcond.2)
    · cases h

def accepted (w : World) : Conn :=
  ⟨w.server.connName w.server.nextConnId,w.server.threadPool.getNextLoop.1,
    .create none (8*1024*1024) w.server.writeCompleteCallback⟩

/-- `newConnection` up to its `runInLoop`. -/
def accept (w : World) : World :=
  { w with
    server :=
      { w.server with
        threadPool := w.server.threadPool.getNextLoop.2
        nextConnId := w.server.nextConnId+1
        connections := Function.update w.server.connections w.accepted.name (some w.conns.length) }
    conns := w.conns++[w.accepted] }

theorem newConnection_eq (w : World) :
    w.newConnection =
      if w.accepted.loop = 0 then w.accept.connectEstablished w.conns.length w.accepted
      else w.accept.queueInLoop w.accepted.loop (.connectEstablished w.conns.length) := rfl

theorem accept_length (w : World) : w.accept.conns.length = w.conns.length+1 := List.length_append

theorem accept_new (w : World) : w.accept.conns[w.conns.length]? = some w.accepted := List.getElem?_concat_length

theorem accept_old {w : World} {i : ℕ} {c : Conn} (hi : i ≠ w.conns.length) :
    w.accept.conns[i]? = some c ↔ w.conns[i]? = some c := by
  by_cases hlt : i < w.conns.length
  · rw [accept,List.getElem?_append_left hlt]
  · rw [List.getElem?_eq_none (by rw [accept_length]; omega),List.getElem?_eq_none (by omega)]

theorem newConnection_length (w : World) : w.newConnection.conns.length = w.conns.length+1 := by
  rw [newConnection_eq]
  split
  · exact List.length_set.trans (accept_length w)
  · exact accept_length w

theorem Registered.fresh {w : World} (h : w.Registered) (hlt : w.conns.length+1 < 2^31) {i : ℕ} {c : Conn}
    (hget : w.conns[i]? = some c) : c.name ≠ w.accepted.name := by
  intro hname
  have hilt := (List.getElem?_eq_some_iff.mp hget).1
  rw [h.names i c hget,accepted,h.nextConnId] at hname
  have hsame := connName_inj (by omega) (by omega) hname
  omega

theorem Registered.accept {w : World} (h : w.Registered) : w.accept.Registered := by
  have hlen := accept_length w
  refine ⟨fun i hi => h.queue i (by omega),fun i hi => h.todo i (by omega),fun i hi => h.history i (by omega),
    fun i c hget => ?_,?_,fun name i hentry => ?_⟩
  · by_cases hi : i = w.conns.length
    · subst hi
      cases (accept_new w).symm.trans hget
      exact congrArg w.server.connName h.nextConnId
    · exact h.names i c ((accept_old hi).mp hget)
  · rw [hlen,BitVec.ofNat_add,← h.nextConnId]
    rfl
  · have hentry' : Function.update w.server.connections w.accepted.name (some w.conns.length) name = some i := hentry
    rw [Function.update_apply] at hentry'
    split at hentry'
    · rename_i hname
      cases hentry'
      exact ⟨w.accepted,accept_new w,hname.symm⟩
    · obtain ⟨c,hget,hname⟩ := h.entries name i hentry'
      have hilt := (List.getElem?_eq_some_iff.mp hget).1
      exact ⟨c,(accept_old (by omega)).mpr hget,hname⟩

theorem newConnection_consistent {w : World} (h : w.Consistent) (hlt : w.conns.length+1 < 2^31) :
    w.newConnection.Consistent := by
  have hothers : ∀ i, i ≠ w.conns.length → ∀ c, w.accept.conns[i]? = some c → w.accept.Balanced i [] c := by
    intro i hi c hget
    have hget := (accept_old hi).mp hget
    refine (h.balanced i c hget).frame (fun _ => rfl) (fun _ => rfl) rfl ?_
    exact Function.update_of_ne (h.fresh hlt hget) ..
  have hcreated : w.accept.Balanced w.conns.length [.connectEstablished w.conns.length] w.accepted :=
    .created (h.queue _ Nat.le.refl) (h.todo _ Nat.le.refl) (h.history _ Nat.le.refl) ⟨_,rfl⟩
      (Function.update_self ..)
  have hlen := accept_length w
  have hregistered := h.toRegistered.accept
  rw [newConnection_eq]
  split
  · exact hregistered.touch (by omega) hothers (accept_new w) .connectEstablished
      (List.getElem?_set_self (by omega)) rfl hcreated.connectEstablished
  · exact hregistered.touch (by omega) hothers (accept_new w) (.queueInLoop rfl) (accept_new w) rfl
      (hcreated.pass rfl (absurd rfl) (fun _ => by simp))

theorem step_length {http : Option HttpServer} {w w' : World} {l : Label} (h : step http w l = some w') :
    w.conns.length ≤ w'.conns.length := by
  rcases step_cases h with rfl | ⟨i,c,-,htouch,-⟩
  · rw [newConnection_length]
    exact Nat.le_succ _
  · exact Nat.le_of_eq htouch.length.symm

theorem initial_consistent (ipPort name : List Char) (threadPool : EventLoopThreadPool)
    (writeCompleteCallback : Option TcpConnection.WriteCompleteCallback) :
    (initial ipPort name threadPool writeCompleteCallback).Consistent := by
  have hnone : ∀ (i : ℕ) (c : Conn), (initial ipPort name threadPool writeCompleteCallback).conns[i]? ≠ some c := by
    intro i c h
    cases List.getElem?_nil.symm.trans h
  exact ⟨⟨fun _ _ _ => rfl,fun _ _ _ => rfl,fun _ _ => rfl,fun i c h => absurd h (hnone i c),rfl,nofun⟩,
    fun i c h => absurd h (hnone i c)⟩

theorem step_consistent {http : Option HttpServer} {w w' : World} {l : Label} (h : w.Consistent)
    (hlt : w'.conns.length < 2^31) (hstep : step http w l = some w') : w'.Consistent := by
  rcases step_cases hstep with rfl | ⟨i,c,hget,htouch,hact⟩
  · exact newConnection_consistent h (by rwa [newConnection_length] at hlt)
  · obtain ⟨c',hget',hname,hbalanced⟩ := hact (h.balanced i c hget)
    rw [htouch.length] at hlt
    exact h.touch hlt (fun j _ => h.balanced j) hget htouch hget' hname hbalanced

theorem run_consistent {http : Option HttpServer} {w w' : World} {labels : List Label}
    (h : w.Consistent) (hrun : Run (step http) w labels w') (hlt : w'.conns.length < 2^31) : w'.Consistent := by
  refine hrun.invariant (I:=fun w => w.conns.length < 2^31 → w.Consistent) ?_ (fun _ => h) hlt
  intro w l w' hw hstep hlt
  have hle := step_length hstep
  exact step_consistent (hw (by omega)) hlt hstep

/-- The server and the loops agree on a connection: it is in `connections_` until it is removed,
`connectEstablished`, the erase of one entry and `connectDestroyed` happen in this order, each at
most once and the last on its own loop, and a close that both loops have handled has removed it. -/
structure Agrees (w : World) (i : ℕ) (c : Conn) : Prop where
  present : w.server.connections c.name = some i ↔ ∀ n, .removeConnectionInLoop i n ∉ w.history
  ordered : w.historyOf i <+: [.connectEstablished i,.removeConnectionInLoop i 1,.connectDestroyed i c.loop]
  established : .connectEstablished i ∈ w.history ∨ .connectEstablished i ∈ w.queue c.loop
  opened : .handleClose ∈ c.conn.trace → .connectEstablished i ∈ w.history
  left : .handleClose ∈ c.conn.trace → (i,.closeCallback) ∉ w.todo c.loop →
    .removeConnectionInLoop i ∉ w.queue 0 → ∀ j, w.server.connections c.name ≠ some j

theorem mem_historyOf {w : World} {i : ℕ} {ev : Event} (h : ev.target = i) :
    ev ∈ w.historyOf i ↔ ev ∈ w.history := by
  rw [historyOf,List.mem_filter]
  simp [h]

theorem Balanced.agrees {w : World} {i : ℕ} {c : Conn} (h : w.Balanced i [] c)
    (hclose : c.conn.trace.count .handleClose ≤ 1) : w.Agrees i c := by
  have hremovals : (w.historyOf i).countP Event.isRemoval = 0 ↔ ∀ n, .removeConnectionInLoop i n ∉ w.history := by
    rw [List.countP_eq_zero]
    constructor
    · intro hnone n hmem
      exact hnone _ ((mem_historyOf rfl).mpr hmem) rfl
    · intro hnone ev hmem hremoval
      obtain ⟨hin,htarget⟩ := List.mem_filter.mp hmem
      cases ev with
      | removeConnectionInLoop j n =>
        have hij : j = i := of_decide_eq_true htarget
        subst hij
        exact hnone n hin
      | _ => cases hremoval
  have hclosed := h.closed
  have hest := h.established
  rw [List.append_nil] at hclosed hest
  refine ⟨?_,h.ordered hclose,?_,?_,?_⟩
  · rw [← hremovals,h.entry]
    split <;> simp_all
  · by_cases hmem : .connectEstablished i ∈ w.queueOf i c.loop
    · exact .inr (List.mem_filter.mp hmem).1
    · rw [List.count_eq_zero.mpr hmem] at hest
      have hpos : 0 < (w.historyOf i).count (.connectEstablished i) := by omega
      exact .inl ((mem_historyOf rfl).mp (List.count_pos_iff.mp hpos))
  · intro hmem
    have hc : ∀ wcc, c.conn ≠ .create none (8*1024*1024) wcc := by
      intro wcc hconn
      rw [hconn] at hmem
      cases hmem
    have hnew := h.notNew hc
    rw [List.append_nil] at hnew
    rw [List.count_eq_zero.mpr hnew] at hest
    have hpos : 0 < (w.historyOf i).count (.connectEstablished i) := by omega
    exact (mem_historyOf rfl).mp (List.count_pos_iff.mp hpos)
  · intro hmem htodo hqueue j
    have hpos := List.count_pos_iff.mpr hmem
    have htodo' : (i,.closeCallback) ∉ w.todoOf i c.loop := fun hm => htodo (List.mem_filter.mp hm).1
    have hqueue' : .removeConnectionInLoop i ∉ w.queueOf i 0 := fun hm => hqueue (List.mem_filter.mp hm).1
    rw [List.count_eq_zero.mpr htodo',List.count_eq_zero.mpr hqueue'] at hclosed
    rw [h.entry,if_neg (by omega)]
    exact nofun

/-- In every state that the server and its loops reach. -/
theorem connections_agree (http : Option HttpServer) (ipPort name : List Char) (threadPool : EventLoopThreadPool)
    (writeCompleteCallback : Option TcpConnection.WriteCompleteCallback) (labels : List Label) (w : World)
    (hrun : Run (step http) (initial ipPort name threadPool writeCompleteCallback) labels w)
    (hclose : ∀ c ∈ w.conns, c.conn.trace.count .handleClose ≤ 1) (haccepts : w.conns.length < 2^31) :
    (∀ (i j : ℕ) (c c' : Conn), w.conns[i]? = some c → w.conns[j]? = some c' → c.name = c'.name → i = j) ∧
      (∀ (name : List Char) (i : ℕ), w.server.connections name = some i →
        ∃ c, w.conns[i]? = some c ∧ c.name = name) ∧
      ∀ (i : ℕ) (c : Conn), w.conns[i]? = some c → w.Agrees i c := by
  have hconsistent := run_consistent (initial_consistent _ _ _ _) hrun haccepts
  refine ⟨fun i j c c' hi hj hname => hconsistent.unique haccepts hi hj hname,hconsistent.entries,fun i c hget => ?_⟩
  exact (hconsistent.balanced i c hget).agrees (hclose c (List.mem_of_getElem? hget))

def acceptedAndClosed : List Label :=
  [.newConnection,.functor 1,.task 1 {},.dispatch 0 Channel.POLLIN,.task 1 { read := .received [] },.task 1 {},
    .task 1 {},.functor 0,.functor 1,.task 1 {},.task 1 {}]

def twoThreads : EventLoopThreadPool := ⟨[1,2],0,by decide⟩

theorem connections_agree_closed :
    ∃ w c, exec (step none) (initial ['1'] ['s'] twoThreads none) acceptedAndClosed = some w ∧
      w.conns[0]? = some c ∧ .handleClose ∈ c.conn.trace ∧ w.Agrees 0 c := by
  obtain ⟨w,hw⟩ : ∃ w, exec (step none) (initial ['1'] ['s'] twoThreads none) acceptedAndClosed = some w :=
    Option.isSome_iff_exists.mp (by decide +kernel)
  have hlast : (exec (step none) (initial ['1'] ['s'] twoThreads none) acceptedAndClosed).map
      (fun w => (w.conns.length,decide (∀ c ∈ w.conns, c.conn.trace.count .handleClose = 1))) = some (1,true) := by
    decide +kernel
  rw [hw] at hlast
  obtain ⟨hlength,honce⟩ : w.conns.length = 1 ∧ ∀ c ∈ w.conns, c.conn.trace.count .handleClose = 1 := by
    simpa using hlast
  obtain ⟨c,hget⟩ : ∃ c, w.conns[0]? = some c := ⟨_,List.getElem?_eq_getElem (by omega)⟩
  have hclose := honce c (List.mem_of_getElem? hget)
  have hagrees := connections_agree none ['1'] ['s'] twoThreads none acceptedAndClosed w
    ((run_iff_exec _ _ _ _).mpr hw) (fun c hc => Nat.le_of_eq (honce c hc)) (by omega)
  exact ⟨w,c,hw,hget,List.count_pos_iff.mp (by omega),hagrees.2.2 0 c hget⟩

end World
end TcpServer
end GgLib
