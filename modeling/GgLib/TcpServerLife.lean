import GgLib.TcpServer
import Mathlib.Data.List.Count
import Mathlib.Data.Prod.Basic

/-! The server and its loops agree on every connection. Each close of a connection is one
`closeCallback_`, which becomes one `removeConnectionInLoop`, which becomes one
`connectDestroyed`; the messages between two loops neither get lost nor double. -/
namespace GgLib

open LabelledSystem

namespace TcpConnection

theorem run_handleClose {server : Option HttpServer} {c : TcpConnection} {e : Choice} {t : Task}
    {p : TcpConnection × List Task} (h : c.run server e t = some p) :
    p.1.trace.count .handleClose = c.trace.count .handleClose+p.2.count .closeCallback := by
  by_cases ht : t.closesNow c e
  · obtain ⟨-,-,htrace,htasks⟩ := run_closesNow h ht
    rw [htrace,htasks,List.count_append]
    rfl
  · obtain ⟨es,hes,hrecords,-⟩ := (run_appends h).trace
    have hclose : .handleClose ∉ es := fun hmem => ht (hrecords _ hmem)
    have hcallback : .closeCallback ∉ p.2 := fun hmem => ht (run_leadsTo h _ hmem)
    rw [hes,List.count_append,List.count_eq_zero.mpr hclose,List.count_eq_zero.mpr hcallback]

theorem run_queues {server : Option HttpServer} {c : TcpConnection} {e : Choice} {t : Task}
    {p : TcpConnection × List Task} (h : c.run server e t = some p) (ht : t ≠ .closeCallback)
    (hc : c.pendingFunctors = []) : .connectDestroyed ∉ p.1.pendingFunctors := by
  obtain ⟨fs,hfs,hown⟩ := (run_appends h).pending
  have hnot : t.isCloseCallback = false := by
    cases t <;> first | rfl | exact absurd rfl ht
  intro hmem
  rw [hfs,hc,List.nil_append] at hmem
  cases hnot.symm.trans (hown _ hmem)

theorem run_notDestroys {server : Option HttpServer} {c : TcpConnection} {e : Choice} {t : Task}
    {p : TcpConnection × List Task} (h : c.run server e t = some p) (hacts : .connectDestroyed ∉ e.acts) :
    ∀ t' ∈ p.2, t'.destroys = false := by
  intro t' ht'
  have hleads := run_leadsTo h t' ht'
  cases t' with
  | call a =>
    rcases hleads with ha | ⟨-,⟨message,rfl⟩ | rfl⟩
    · cases a <;> first | rfl | exact absurd ha hacts
    · rfl
    · rfl
  | functor f => cases hleads
  | _ => rfl

end TcpConnection

namespace TcpServer

def Functor.target : Functor → ℕ
  | .connectEstablished i => i
  | .removeConnectionInLoop i => i
  | .conn i _ => i

def Event.target : Event → ℕ
  | .connectEstablished i => i
  | .removeConnectionInLoop i _ => i
  | .connectDestroyed i _ => i

def Event.isRemoval : Event → Bool
  | .removeConnectionInLoop _ _ => true
  | _ => false

def Event.isDestruction : Event → Bool
  | .connectDestroyed _ _ => true
  | _ => false

/-- The message that a loop has taken when it runs the task. -/
def Functor.ofTask (i : ℕ) (t : TcpConnection.Task) : List Functor :=
  if t = .closeCallback then [.removeConnectionInLoop i]
  else if t.destroys then [.conn i .connectDestroyed]
  else []

theorem Functor.count_snoc_of_ne {f g : Functor} (h : f ≠ g) (fs : List Functor) :
    (fs++[f]).count g = fs.count g := by
  rw [List.count_append,List.count_singleton,if_neg (by simpa using h),Nat.add_zero]

namespace World

variable (w : World) (i : ℕ)

/-- What concerns one connection in the queue of a loop, on its stack and in the record. -/
def queueOf (loop : ℕ) : List Functor := (w.queue loop).filter (·.target = i)
def todoOf (loop : ℕ) : List (ℕ × TcpConnection.Task) := (w.todo loop).filter (·.1 = i)
def historyOf : List Event := w.history.filter (·.target = i)

section

variable (j loop loop' : ℕ)

theorem queueInLoop_queueOf (f : Functor) :
    (w.queueInLoop loop f).queueOf j loop' =
      w.queueOf j loop'++if loop' = loop ∧ f.target = j then [f] else [] := by
  rw [queueOf,queueOf,queueInLoop]
  by_cases hl : loop' = loop
  · subst hl
    simp [List.filter_append,List.filter_singleton]
  · simp [hl]

theorem setTodo_todoOf (tasks : List (ℕ × TcpConnection.Task)) :
    (w.setTodo loop tasks).todoOf j loop' = if loop' = loop then tasks.filter (·.1 = j) else w.todoOf j loop' := by
  rw [todoOf,todoOf,setTodo]
  by_cases hl : loop' = loop
  · subst hl
    simp
  · simp [hl]

theorem record_historyOf (ev : Event) :
    (w.record ev).historyOf j = w.historyOf j++if ev.target = j then [ev] else [] := by
  rw [historyOf,historyOf,record,List.filter_append,List.filter_singleton]
  simp

theorem record_historyOf_self {ev : Event} (h : ev.target = i) :
    (w.record ev).historyOf i = w.historyOf i++[ev] := by
  rw [record_historyOf,if_pos h]

theorem store_queueOf (c : Conn) (p : TcpConnection × List TcpConnection.Task) :
    (w.store i c p).queueOf j loop =
      w.queueOf j loop++if loop = c.loop ∧ i = j then p.1.pendingFunctors.map (.conn i) else [] := by
  rw [queueOf,queueOf,store]
  by_cases hl : loop = c.loop
  · subst hl
    by_cases hij : i = j
    · simp [hij,List.filter_map,Function.comp_def,Functor.target]
    · simp [hij,List.filter_map,Function.comp_def,Functor.target]
  · simp [hl]

theorem store_todoOf (c : Conn) (p : TcpConnection × List TcpConnection.Task) :
    (w.store i c p).todoOf j loop =
      (if loop = c.loop ∧ i = j then p.2.map (Prod.mk i) else [])++w.todoOf j loop := by
  rw [todoOf,todoOf,store]
  by_cases hl : loop = c.loop
  · subst hl
    by_cases hij : i = j
    · simp [hij,List.filter_map,Function.comp_def]
    · simp [hij,List.filter_map,Function.comp_def]
  · simp [hl]

@[simp] theorem setTodo_queueOf (tasks : List (ℕ × TcpConnection.Task)) :
    (w.setTodo loop tasks).queueOf j loop' = w.queueOf j loop' := rfl
@[simp] theorem setTodo_historyOf (tasks : List (ℕ × TcpConnection.Task)) :
    (w.setTodo loop tasks).historyOf j = w.historyOf j := rfl
@[simp] theorem record_queueOf (ev : Event) : (w.record ev).queueOf j loop = w.queueOf j loop := rfl
@[simp] theorem record_todoOf (ev : Event) : (w.record ev).todoOf j loop = w.todoOf j loop := rfl

theorem removeConnectionInLoop_queueOf (c : Conn) :
    (w.removeConnectionInLoop i c).queueOf i loop =
      w.queueOf i loop++if loop = c.loop then [.conn i .connectDestroyed] else [] := by
  have h := queueInLoop_queueOf
    { w with server := { w.server with connections := Function.update w.server.connections c.name none } }
    i c.loop loop (.conn i .connectDestroyed)
  simp only [Functor.target,and_true] at h
  exact h

theorem removeConnectionInLoop_historyOf (c : Conn) :
    (w.removeConnectionInLoop i c).historyOf i =
      w.historyOf i++[.removeConnectionInLoop i (if (w.server.connections c.name).isSome then 1 else 0)] := by
  rw [removeConnectionInLoop]
  exact record_historyOf_self _ i rfl

theorem removeConnection_conns (c : Conn) : (w.removeConnection i c).conns = w.conns := by
  rw [removeConnection]
  split <;> rfl

@[simp] theorem removeConnectionInLoop_todoOf (c : Conn) :
    (w.removeConnectionInLoop i c).todoOf j loop = w.todoOf j loop := rfl

end

/-- A connection whose `connectEstablished` has not run: nothing can happen to it. -/
structure Fresh (taken : List Functor) (c : Conn) : Prop where
  created : ∃ wcc, c.conn = .create none (8*1024*1024) wcc
  todo : w.todoOf i c.loop = []
  queue : ∀ f ∈ w.queueOf i c.loop++taken, f = .connectEstablished i

/-- The life of one connection, as it is counted on its way from loop to loop; `taken` is a
message that a loop has taken and not yet acted on. -/
structure Balanced (taken : List Functor) (c : Conn) : Prop where
  tasks : ∀ loop, loop ≠ c.loop → w.todoOf i loop = []
  functors : ∀ loop, loop ≠ c.loop → ∀ f ∈ w.queueOf i loop, f = .removeConnectionInLoop i
  removals : ∀ loop, loop ≠ 0 → .removeConnectionInLoop i ∉ w.queueOf i loop
  flushed : c.conn.pendingFunctors = []
  fresh : .connectEstablished i ∈ w.queueOf i c.loop++taken → w.Fresh i taken c
  established : (w.historyOf i).count (.connectEstablished i)+
    (w.queueOf i c.loop++taken).count (.connectEstablished i) = 1
  closed : c.conn.trace.count .handleClose = (w.todoOf i c.loop).count (i,.closeCallback)+
    (w.queueOf i 0++taken).count (.removeConnectionInLoop i)+(w.historyOf i).countP Event.isRemoval
  removed : (w.historyOf i).countP Event.isRemoval =
    (w.queueOf i c.loop++taken).count (.conn i .connectDestroyed)+
      (w.todoOf i c.loop).countP (·.2.destroys)+(w.historyOf i).countP Event.isDestruction
  entry : w.server.connections c.name = if (w.historyOf i).countP Event.isRemoval = 0 then some i else none
  ordered : c.conn.trace.count .handleClose ≤ 1 →
    w.historyOf i <+: [.connectEstablished i,.removeConnectionInLoop i 1,.connectDestroyed i c.loop]

namespace Balanced

variable {w w' : World} {i : ℕ} {taken : List Functor} {c c' : Conn}

theorem frame (h : w.Balanced i taken c) (hqueue : ∀ loop, w'.queueOf i loop = w.queueOf i loop)
    (htodo : ∀ loop, w'.todoOf i loop = w.todoOf i loop) (hhistory : w'.historyOf i = w.historyOf i)
    (hentry : w'.server.connections c.name = w.server.connections c.name) : w'.Balanced i taken c where
  tasks loop hloop := by rw [htodo,h.tasks loop hloop]
  functors loop hloop := by rw [hqueue]; exact h.functors loop hloop
  removals loop hloop := by rw [hqueue]; exact h.removals loop hloop
  flushed := h.flushed
  fresh hmem := by
    rw [hqueue] at hmem
    obtain ⟨hcreated,hempty,honly⟩ := h.fresh hmem
    exact ⟨hcreated,by rw [htodo,hempty],by rw [hqueue]; exact honly⟩
  established := by rw [hqueue,hhistory,h.established]
  closed := by rw [hqueue,hhistory,htodo,h.closed]
  removed := by rw [hqueue,hhistory,htodo,h.removed]
  entry := by rw [hentry,hhistory,h.entry]
  ordered := by rw [hhistory]; exact h.ordered

theorem notClosed (h : w.Balanced i taken c) (hmem : .connectEstablished i ∈ w.queueOf i c.loop++taken) :
    (w.queueOf i 0++taken).count (.removeConnectionInLoop i) = 0 ∧
      (w.historyOf i).countP Event.isRemoval = 0 := by
  obtain ⟨⟨wcc,hconn⟩,-,-⟩ := h.fresh hmem
  have hcount : c.conn.trace.count .handleClose = 0 := by rw [hconn]; rfl
  have hclosed := h.closed
  omega

/-- Messages may move between the queues and the loops, as long as none gets lost or doubles. -/
theorem requeue (h : w.Balanced i taken c) {taken' : List Functor}
    (hfunctors : ∀ loop, loop ≠ c.loop → ∀ f ∈ w'.queueOf i loop, f = .removeConnectionInLoop i)
    (hremovals : ∀ loop, loop ≠ 0 → .removeConnectionInLoop i ∉ w'.queueOf i loop)
    (hown : ∀ f, f ≠ .removeConnectionInLoop i →
      (w'.queueOf i c.loop++taken').count f = (w.queueOf i c.loop++taken).count f)
    (hbase : (w'.queueOf i 0++taken').count (.removeConnectionInLoop i) =
      (w.queueOf i 0++taken).count (.removeConnectionInLoop i))
    (htodo : w'.todo = w.todo) (hhistory : w'.history = w.history) (hserver : w'.server = w.server) :
    w'.Balanced i taken' c := by
  have htodo' : ∀ loop, w'.todoOf i loop = w.todoOf i loop := fun loop => by rw [todoOf,htodo,todoOf]
  have hhistory' : w'.historyOf i = w.historyOf i := by rw [historyOf,hhistory,historyOf]
  refine ⟨fun loop hne => ?_,hfunctors,hremovals,h.flushed,fun hmem => ?_,?_,?_,?_,?_,?_⟩
  · rw [htodo',h.tasks loop hne]
  · rw [← List.count_pos_iff,hown (.connectEstablished i) nofun,List.count_pos_iff] at hmem
    obtain ⟨hcreated,hempty,honly⟩ := h.fresh hmem
    refine ⟨hcreated,by rw [htodo',hempty],fun f hf => ?_⟩
    by_cases hremoval : f = .removeConnectionInLoop i
    · subst hremoval
      -- a removal in reach of the loop is one that the server's loop has
      have hreach : .removeConnectionInLoop i ∈ w'.queueOf i 0++taken' := by
        rcases List.mem_append.mp hf with hf | hf
        · have hloop : c.loop = 0 := by
            by_contra hne
            exact hremovals _ hne hf
          rw [hloop] at hf
          exact List.mem_append_left _ hf
        · exact List.mem_append_right _ hf
      rw [← List.count_pos_iff,hbase,(h.notClosed hmem).1] at hreach
      cases hreach
    · rw [← List.count_pos_iff,hown f hremoval,List.count_pos_iff] at hf
      exact honly f hf
  · rw [hown (.connectEstablished i) nofun,hhistory',h.established]
  · rw [hbase,hhistory',htodo',h.closed]
  · rw [hown (.conn i .connectDestroyed) nofun,hhistory',htodo',h.removed]
  · rw [hserver,hhistory',h.entry]
  · rw [hhistory']
    exact h.ordered

/-- A loop takes a functor out of its queue. -/
theorem take (h : w.Balanced i [] c) {loop : ℕ} {f : Functor} {fs : List Functor}
    (hqueue : w.queue loop = f::fs) (hf : f.target = i) :
    ({ w with queue := Function.update w.queue loop fs } : World).Balanced i [f] c := by
  set w' : World := { w with queue := Function.update w.queue loop fs }
  have hhead : w.queueOf i loop = f::w'.queueOf i loop := by simp [queueOf,hqueue,w',hf]
  have hrest : ∀ loop', loop' ≠ loop → w'.queueOf i loop' = w.queueOf i loop' := by
    intro loop' hne
    simp [queueOf,w',hne]
  have hsub : ∀ loop', ∀ g ∈ w'.queueOf i loop', g ∈ w.queueOf i loop' := by
    intro loop' g hg
    by_cases hl : loop' = loop
    · subst hl
      rw [hhead]
      exact List.mem_cons_of_mem _ hg
    · rwa [hrest loop' hl] at hg
  have hmem : f ∈ w.queueOf i loop := by
    rw [hhead]
    exact List.mem_cons_self
  have hperm : List.Perm (w'.queueOf i loop++[f]) (w.queueOf i loop) := by
    rw [hhead]
    exact List.perm_append_singleton f _
  refine h.requeue (fun loop' hne g hg => h.functors loop' hne g (hsub _ _ hg))
    (fun loop' hne hg => h.removals loop' hne (hsub _ _ hg)) (fun g hg => ?_) ?_ rfl rfl rfl
  · rw [List.append_nil]
    by_cases hl : c.loop = loop
    · rw [hl]
      exact hperm.count_eq g
    · have hf := h.functors loop (Ne.symm hl) f hmem
      rw [hrest _ hl,Functor.count_snoc_of_ne (by rw [hf]; exact Ne.symm hg)]
  · rw [List.append_nil]
    by_cases hl : 0 = loop
    · rw [hl]
      exact hperm.count_eq _
    · have hne : f ≠ .removeConnectionInLoop i := by
        rintro rfl
        exact h.removals loop (Ne.symm hl) hmem
      rw [hrest _ hl,Functor.count_snoc_of_ne hne]

/-- A loop passes a message on to the loop it is for. -/
theorem pass {f : Functor} (h : w.Balanced i [f] c) {loop : ℕ} (hf : f.target = i)
    (hown : loop ≠ c.loop → f = .removeConnectionInLoop i)
    (hbase : loop ≠ 0 → f ≠ .removeConnectionInLoop i) : (w.queueInLoop loop f).Balanced i [] c := by
  have hqueue : ∀ loop', (w.queueInLoop loop f).queueOf i loop' =
      w.queueOf i loop'++if loop' = loop then [f] else [] := by
    intro loop'
    rw [queueInLoop_queueOf,hf]
    simp only [and_true]
  refine h.requeue (fun loop' hne g hg => ?_) (fun loop' hne hg => ?_) (fun g hg => ?_) ?_ rfl rfl rfl
  · rw [hqueue,List.mem_append] at hg
    rcases hg with hg | hg
    · exact h.functors loop' hne g hg
    · split at hg
      · rename_i hl
        subst hl
        rw [List.mem_singleton.mp hg]
        exact hown hne
      · cases hg
  · rw [hqueue,List.mem_append] at hg
    rcases hg with hg | hg
    · exact h.removals loop' hne hg
    · split at hg
      · rename_i hl
        subst hl
        exact hbase hne (List.mem_singleton.mp hg).symm
      · cases hg
  · rw [hqueue,List.append_nil]
    split
    · rfl
    · rename_i hl
      rw [List.append_nil,Functor.count_snoc_of_ne (by rw [hown (Ne.symm hl)]; exact Ne.symm hg)]
  · rw [hqueue,List.append_nil]
    split
    · rfl
    · rename_i hl
      rw [List.append_nil,Functor.count_snoc_of_ne (hbase (Ne.symm hl))]

/-- What a loop does with an established connection, other than the four messages: the
connection changes, queues functors of its own and goes on to tasks. -/
theorem act (h : w.Balanced i taken c) (fs : List TcpConnection.Functor) (ts : List TcpConnection.Task)
    (hestablished : .connectEstablished i ∉ w.queueOf i c.loop++taken)
    (hname : c'.name = c.name) (hloop : c'.loop = c.loop) (hflushed : c'.conn.pendingFunctors = [])
    (hqueue : ∀ loop, w'.queueOf i loop = w.queueOf i loop++if loop = c.loop then fs.map (.conn i) else [])
    (htodo : ∀ loop, w'.todoOf i loop = (if loop = c.loop then ts.map (Prod.mk i) else [])++w.todoOf i loop)
    (hhistory : w'.historyOf i = w.historyOf i)
    (hentry : w'.server.connections c.name = w.server.connections c.name)
    (hfs : .connectDestroyed ∉ fs) (hts : ∀ t ∈ ts, t.destroys = false)
    (hcloses : c'.conn.trace.count .handleClose = c.conn.trace.count .handleClose+ts.count .closeCallback) :
    w'.Balanced i taken c' := by
  have hmem : ∀ loop, ∀ f ∈ w'.queueOf i loop, (∀ g, f ≠ .conn i g) → f ∈ w.queueOf i loop := by
    intro loop f hf hown
    rw [hqueue,List.mem_append] at hf
    rcases hf with hf | hf
    · exact hf
    · split at hf
      · obtain ⟨g,-,rfl⟩ := List.mem_map.mp hf
        exact absurd rfl (hown g)
      · cases hf
  have hcount : ∀ loop, ∀ f, (∀ g ∈ fs, f ≠ .conn i g) →
      (w'.queueOf i loop++taken).count f = (w.queueOf i loop++taken).count f := by
    intro loop f hown
    have hzero : (if loop = c.loop then fs.map (Functor.conn i) else []).count f = 0 := by
      rw [List.count_eq_zero]
      split
      · intro hf
        obtain ⟨g,hg,hfg⟩ := List.mem_map.mp hf
        exact hown g hg hfg.symm
      · exact List.not_mem_nil
    rw [hqueue,List.count_append,List.count_append,List.count_append,hzero,Nat.add_zero]
  have hclose : (ts.map (Prod.mk i)).count (i,TcpConnection.Task.closeCallback) = ts.count .closeCallback :=
    List.count_map_of_injective ts (Prod.mk i) (Prod.mk_right_injective i) _
  have hdestroy : (ts.map (Prod.mk i)).countP (·.2.destroys) = 0 := by
    rw [List.countP_eq_zero]
    intro t ht
    obtain ⟨t',ht',rfl⟩ := List.mem_map.mp ht
    simpa using hts t' ht'
  have htodo' : w'.todoOf i c.loop = ts.map (Prod.mk i)++w.todoOf i c.loop := by rw [htodo,if_pos rfl]
  refine ⟨fun loop hne => ?_,fun loop hne f hf => ?_,fun loop hne hf => ?_,hflushed,fun hf => ?_,?_,?_,?_,?_,?_⟩
  · rw [hloop] at hne
    rw [htodo,if_neg hne,h.tasks loop hne,List.nil_append]
  · rw [hloop] at hne
    rw [hqueue,if_neg hne,List.append_nil] at hf
    exact h.functors loop hne f hf
  · exact h.removals loop hne (hmem loop _ hf nofun)
  · rw [hloop,← List.count_pos_iff,hcount _ (.connectEstablished i) nofun] at hf
    exact absurd (List.count_pos_iff.mp hf) hestablished
  · rw [hloop,hhistory,hcount _ (.connectEstablished i) nofun]
    exact h.established
  · rw [hcloses,h.closed,hloop,hhistory,hcount _ (.removeConnectionInLoop i) nofun,htodo',List.count_append,
      List.count_append,hclose]
    omega
  · have hne : ∀ g ∈ fs, Functor.conn i .connectDestroyed ≠ .conn i g := by
      rintro g hg ⟨⟩
      exact hfs hg
    rw [hloop,hhistory,hcount _ _ hne,htodo',List.countP_append,hdestroy,Nat.zero_add]
    exact h.removed
  · rw [hname,hentry,hhistory]
    exact h.entry
  · intro hle
    rw [hhistory,hloop]
    exact h.ordered (by omega)

theorem notNew (h : w.Balanced i taken c) (hc : ∀ wcc, c.conn ≠ .create none (8*1024*1024) wcc) :
    .connectEstablished i ∉ w.queueOf i c.loop++taken := by
  intro hmem
  obtain ⟨wcc,hconn⟩ := (h.fresh hmem).created
  exact hc wcc hconn

theorem turnTo (h : w.Balanced i [] c) (hc : ∀ wcc, c.conn ≠ .create none (8*1024*1024) wcc)
    (ts : List TcpConnection.Task) (hts : ∀ t ∈ ts, t.destroys = false ∧ t ≠ .closeCallback) :
    (w.setTodo c.loop (ts.map (Prod.mk i)++w.todo c.loop)).Balanced i [] c := by
  refine h.act [] ts (h.notNew hc) rfl rfl h.flushed (fun loop => ?_) (fun loop => ?_) rfl rfl List.not_mem_nil
    (fun t ht => (hts t ht).1) ?_
  · rw [setTodo_queueOf]
    simp
  · rw [setTodo_todoOf]
    split
    · rename_i hl
      simp [todoOf,hl,List.filter_map,Function.comp_def]
    · rfl
  · rw [List.count_eq_zero.mpr fun hmem => (hts _ hmem).2 rfl,Nat.add_zero]

theorem goOn {f : TcpConnection.Functor} (h : w.Balanced i [.conn i f] c) (htodo : w.todoOf i c.loop = []) :
    (w.setTodo c.loop [(i,.functor f)]).Balanced i [] c := by
  have hnew : (w.setTodo c.loop [(i,.functor f)]).todoOf i c.loop = [(i,.functor f)] := by
    rw [setTodo_todoOf,if_pos rfl]
    simp
  have hestablished : .connectEstablished i ∉ w.queueOf i c.loop++[Functor.conn i f] := by
    intro hmem
    cases (h.fresh hmem).queue (.conn i f) (by simp)
  have hcount : ∀ g, g ≠ Functor.conn i f → ∀ loop,
      (w.queueOf i loop++[Functor.conn i f]).count g = (w.queueOf i loop++[]).count g := by
    intro g hg loop
    rw [Functor.count_snoc_of_ne (Ne.symm hg),List.append_nil]
  refine ⟨fun loop hne => ?_,h.functors,h.removals,h.flushed,fun hmem => ?_,?_,?_,?_,h.entry,h.ordered⟩
  · rw [setTodo_todoOf,if_neg hne]
    exact h.tasks loop hne
  · rw [List.append_nil] at hmem
    exact absurd (List.mem_append_left _ hmem) hestablished
  · have hest := h.established
    rw [hcount (.connectEstablished i) nofun] at hest
    exact hest
  · have hclosed := h.closed
    have hzero : [(i,TcpConnection.Task.functor f)].count (i,.closeCallback) = 0 := by simp
    rw [hcount (.removeConnectionInLoop i) nofun,htodo] at hclosed
    rw [hnew,hzero]
    exact hclosed
  · have hremoved := h.removed
    have hdestroys : [Functor.conn i f].count (.conn i .connectDestroyed) =
        [(i,TcpConnection.Task.functor f)].countP (·.2.destroys) := by
      cases f <;> simp [TcpConnection.Task.destroys]
    rw [htodo,List.count_append,hdestroys,List.countP_nil,Nat.add_zero] at hremoved
    rw [hnew,List.append_nil]
    exact hremoved

theorem busy (h : w.Balanced i [] c) {loop : ℕ} {t : TcpConnection.Task} {ts : List (ℕ × TcpConnection.Task)}
    (htodo : w.todo loop = (i,t)::ts) : loop = c.loop ∧ .connectEstablished i ∉ w.queueOf i c.loop := by
  have hmem : (i,t) ∈ w.todoOf i loop := by
    rw [todoOf,htodo,List.filter_cons_of_pos (by simp)]
    exact List.mem_cons_self
  have hloop : loop = c.loop := by
    by_contra hne
    rw [h.tasks loop hne] at hmem
    cases hmem
  refine ⟨hloop,fun hnew => ?_⟩
  rw [← List.append_nil (w.queueOf i c.loop)] at hnew
  rw [hloop,(h.fresh hnew).todo] at hmem
  cases hmem

/-- A loop takes a task. -/
theorem takeTask (h : w.Balanced i [] c) {loop : ℕ} {t : TcpConnection.Task}
    {ts : List (ℕ × TcpConnection.Task)} (htodo : w.todo loop = (i,t)::ts) :
    (w.setTodo loop ts).Balanced i (Functor.ofTask i t) c := by
  obtain ⟨rfl,hestablished⟩ := h.busy htodo
  have hhead : w.todoOf i c.loop = (i,t)::(w.setTodo c.loop ts).todoOf i c.loop := by
    rw [setTodo_todoOf,if_pos rfl,todoOf,htodo,List.filter_cons_of_pos (by simp)]
  have hclose : [(i,t)].count (i,.closeCallback) = (Functor.ofTask i t).count (.removeConnectionInLoop i) := by
    rw [Functor.ofTask]
    split
    · simp_all
    · split <;> simp_all
  have hdestroy : [(i,t)].countP (·.2.destroys) = (Functor.ofTask i t).count (.conn i .connectDestroyed) := by
    rw [Functor.ofTask]
    split
    · rename_i ht
      rw [ht]
      rfl
    · split <;> simp_all
  have hnew : (Functor.ofTask i t).count (.connectEstablished i) = 0 := by
    rw [Functor.ofTask]
    split
    · rfl
    · split <;> rfl
  refine ⟨fun loop hne => ?_,h.functors,h.removals,h.flushed,fun hmem => ?_,?_,?_,?_,h.entry,h.ordered⟩
  · rw [setTodo_todoOf,if_neg hne]
    exact h.tasks loop hne
  · have hpos : 0 < ((w.setTodo c.loop ts).queueOf i c.loop++Functor.ofTask i t).count (.connectEstablished i) :=
      List.count_pos_iff.mpr hmem
    rw [List.count_append,hnew,Nat.add_zero] at hpos
    exact absurd (List.count_pos_iff.mp hpos) hestablished
  · have hest := h.established
    rw [List.append_nil] at hest
    rw [List.count_append,hnew,Nat.add_zero]
    exact hest
  · have hclosed := h.closed
    rw [hhead,← List.singleton_append,List.count_append,hclose,List.append_nil] at hclosed
    rw [hclosed,List.count_append,setTodo_queueOf,setTodo_historyOf]
    omega
  · have hremoved := h.removed
    rw [hhead,← List.singleton_append,List.countP_append,hdestroy,List.append_nil] at hremoved
    rw [setTodo_queueOf,setTodo_historyOf,hremoved,List.count_append]
    omega

theorem stages {i loop : ℕ} {es : List Event}
    (h : es <+: [.connectEstablished i,.removeConnectionInLoop i 1,.connectDestroyed i loop]) :
    (es = [] ∧ es.count (.connectEstablished i) = 0) ∨
      (es = [.connectEstablished i] ∧ es.count (.connectEstablished i) = 1 ∧ es.countP Event.isRemoval = 0) ∨
      (es = [.connectEstablished i,.removeConnectionInLoop i 1] ∧ es.count (.connectEstablished i) = 1 ∧
        es.countP Event.isRemoval = 1 ∧ es.countP Event.isDestruction = 0) ∨
      (es.count (.connectEstablished i) = 1 ∧ es.countP Event.isRemoval = 1 ∧ es.countP Event.isDestruction = 1) := by
  simp only [List.prefix_cons_iff,List.prefix_nil] at h
  rcases h with rfl | ⟨es,rfl,rfl | ⟨es,rfl,rfl | ⟨es,rfl,rfl⟩⟩⟩
  · exact .inl ⟨rfl,rfl⟩
  · exact .inr (.inl ⟨rfl,by simp,rfl⟩)
  · exact .inr (.inr (.inl ⟨rfl,by simp,rfl,rfl⟩))
  · exact .inr (.inr (.inr ⟨by simp,rfl,rfl⟩))

theorem recordEstablished (h : w.Balanced i [.connectEstablished i] c) :
    (w.record (.connectEstablished i)).Balanced i [] c := by
  have hhistory : (w.record (.connectEstablished i)).historyOf i = w.historyOf i++[.connectEstablished i] :=
    record_historyOf_self _ _ rfl
  have hcountP : ∀ p : Event → Bool, p (.connectEstablished i) = false →
      ((w.record (.connectEstablished i)).historyOf i).countP p = (w.historyOf i).countP p := by
    intro p hp
    rw [hhistory,List.countP_append,List.countP_singleton,hp]
    rfl
  have hest := h.established
  rw [List.count_append,List.count_singleton_self] at hest
  refine ⟨h.tasks,h.functors,h.removals,h.flushed,fun hmem => ?_,?_,?_,?_,?_,fun hle => ?_⟩
  · have hpos := List.count_pos_iff.mpr hmem
    rw [List.append_nil,record_queueOf] at hpos
    omega
  · rw [hhistory,List.count_append,List.count_singleton_self,List.append_nil,record_queueOf]
    omega
  · rw [hcountP Event.isRemoval rfl,List.append_nil]
    simpa using h.closed
  · rw [hcountP Event.isRemoval rfl,hcountP Event.isDestruction rfl,List.append_nil]
    simpa using h.removed
  · rw [hcountP Event.isRemoval rfl]
    exact h.entry
  · rw [hhistory]
    have hnil : w.historyOf i = [] := by
      rcases stages (h.ordered hle) with hstage | hstage | hstage | hstage
      · exact hstage.1
      all_goals omega
    rw [hnil]
    exact List.prefix_append [Event.connectEstablished i] _

theorem recordDestroyed (h : w.Balanced i [.conn i .connectDestroyed] c) :
    (w.record (.connectDestroyed i c.loop)).Balanced i [] c := by
  have hhistory : (w.record (.connectDestroyed i c.loop)).historyOf i =
      w.historyOf i++[.connectDestroyed i c.loop] := record_historyOf_self _ _ rfl
  have hremovals : ((w.record (.connectDestroyed i c.loop)).historyOf i).countP Event.isRemoval =
      (w.historyOf i).countP Event.isRemoval := by
    rw [hhistory,List.countP_append]
    rfl
  have hremoved := h.removed
  rw [List.count_append,List.count_singleton_self] at hremoved
  refine ⟨h.tasks,h.functors,h.removals,h.flushed,fun hmem => ?_,?_,?_,?_,?_,fun hle => ?_⟩
  · rw [List.append_nil] at hmem
    cases (h.fresh (List.mem_append_left _ hmem)).queue (.conn i .connectDestroyed) (by simp)
  · rw [hhistory,List.count_append,List.append_nil]
    simpa using h.established
  · rw [hremovals,List.append_nil]
    simpa using h.closed
  · have hdestroyed : ((w.record (.connectDestroyed i c.loop)).historyOf i).countP Event.isDestruction =
        (w.historyOf i).countP Event.isDestruction+1 := by
      rw [hhistory,List.countP_append]
      rfl
    rw [hremovals,hdestroyed,List.append_nil,record_queueOf,record_todoOf]
    omega
  · rw [hremovals]
    exact h.entry
  · have hclosed := h.closed
    rw [hhistory]
    have hboth : w.historyOf i = [.connectEstablished i,.removeConnectionInLoop i 1] := by
      rcases stages (h.ordered hle) with ⟨heq,-⟩ | hstage | hstage | hstage
      · rw [heq,List.countP_nil] at hremoved
        omega
      · omega
      · exact hstage.1
      · omega
    rw [hboth]
    exact List.prefix_rfl

/-- The erase finds the connection, and `connectDestroyed` is queued behind it. -/
theorem removeConnectionInLoop (h : w.Balanced i [.removeConnectionInLoop i] c) :
    (w.removeConnectionInLoop i c).Balanced i [] c := by
  have hhistory := w.removeConnectionInLoop_historyOf i c
  have hcount : ∀ loop, ∀ f, f ≠ .conn i .connectDestroyed →
      ((w.removeConnectionInLoop i c).queueOf i loop).count f = (w.queueOf i loop).count f := by
    intro loop f hf
    rw [removeConnectionInLoop_queueOf]
    split
    · exact Functor.count_snoc_of_ne (Ne.symm hf) _
    · rw [List.append_nil]
  have hremovals : ((w.removeConnectionInLoop i c).historyOf i).countP Event.isRemoval =
      (w.historyOf i).countP Event.isRemoval+1 := by
    rw [hhistory,List.countP_append]
    rfl
  have hestablished : .connectEstablished i ∉ w.queueOf i c.loop++[Functor.removeConnectionInLoop i] := by
    intro hmem
    cases (h.fresh hmem).queue (.removeConnectionInLoop i) (by simp)
  have hclosed := h.closed
  rw [List.count_append,List.count_singleton_self] at hclosed
  have hest := h.established
  rw [List.count_eq_zero.mpr hestablished,Nat.add_zero] at hest
  refine ⟨h.tasks,fun loop hne f hf => ?_,fun loop hne hf => ?_,h.flushed,fun hmem => ?_,?_,?_,?_,?_,fun hle => ?_⟩
  · rw [removeConnectionInLoop_queueOf,if_neg hne,List.append_nil] at hf
    exact h.functors loop hne f hf
  · rw [← List.count_pos_iff,hcount loop (.removeConnectionInLoop i) nofun] at hf
    exact h.removals loop hne (List.count_pos_iff.mp hf)
  · rw [List.append_nil,← List.count_pos_iff,hcount _ (.connectEstablished i) nofun] at hmem
    exact absurd (List.mem_append_left _ (List.count_pos_iff.mp hmem)) hestablished
  · have hrest : (w.queueOf i c.loop).count (.connectEstablished i) = 0 :=
      List.count_eq_zero.mpr fun hmem => hestablished (List.mem_append_left _ hmem)
    rw [List.append_nil,hcount _ (.connectEstablished i) nofun,hrest,hhistory,List.count_append,hest]
    simp
  · rw [List.append_nil,hcount _ (.removeConnectionInLoop i) nofun,hremovals,hclosed,removeConnectionInLoop_todoOf]
    omega
  · have hdestroyed : ((w.removeConnectionInLoop i c).historyOf i).countP Event.isDestruction =
        (w.historyOf i).countP Event.isDestruction := by
      rw [hhistory,List.countP_append]
      rfl
    have hremoved := h.removed
    rw [List.count_append,List.count_singleton] at hremoved
    rw [hremovals,hdestroyed,hremoved,List.append_nil,removeConnectionInLoop_queueOf,if_pos rfl,List.count_append,
      List.count_singleton_self,removeConnectionInLoop_todoOf]
    simp
    omega
  · rw [hremovals]
    exact Function.update_self ..
  · have hnone : (w.historyOf i).countP Event.isRemoval = 0 := by omega
    have honly : w.historyOf i = [.connectEstablished i] := by
      rcases stages (h.ordered hle) with hstage | hstage | hstage | hstage
      · omega
      · exact hstage.1
      all_goals omega
    rw [hhistory,honly,h.entry,if_pos hnone]
    exact List.prefix_append [_,_] _

/-- `closeCallback_` reaches the loop of the server at once or through its queue. -/
theorem removeConnection (h : w.Balanced i [.removeConnectionInLoop i] c) :
    (w.removeConnection i c).Balanced i [] c := by
  rw [World.removeConnection]
  split
  · exact h.removeConnectionInLoop
  · exact h.pass rfl (fun _ => rfl) (absurd rfl)

theorem store (h : w.Balanced i [] c) {p : TcpConnection × List TcpConnection.Task}
    (hestablished : .connectEstablished i ∉ w.queueOf i c.loop)
    (hfunctors : .connectDestroyed ∉ p.1.pendingFunctors) (htasks : ∀ t ∈ p.2, t.destroys = false)
    (hcloses : p.1.trace.count .handleClose = c.conn.trace.count .handleClose+p.2.count .closeCallback) :
    (w.store i c p).Balanced i [] { c with conn := { p.1 with pendingFunctors := [] } } := by
  refine h.act p.1.pendingFunctors p.2 (by rwa [List.append_nil]) rfl rfl rfl (fun loop => ?_) (fun loop => ?_)
    rfl rfl hfunctors htasks hcloses
  · rw [store_queueOf]
    simp only [and_true]
  · rw [store_todoOf]
    simp only [and_true]

theorem connectEstablished (h : w.Balanced i [.connectEstablished i] c) :
    (w.connectEstablished i c).Balanced i []
      { c with conn := { c.conn.connectEstablished.1 with pendingFunctors := [] } } := by
  obtain ⟨wcc,hconn⟩ := (h.fresh (List.mem_append_right _ (List.mem_singleton.mpr rfl))).created
  have hrest : .connectEstablished i ∉ w.queueOf i c.loop := by
    intro hmem
    have hest := h.established
    have hpos := List.count_pos_iff.mpr hmem
    rw [List.count_append,List.count_singleton_self] at hest
    omega
  refine h.recordEstablished.store hrest ?_ ?_ ?_
  · rw [hconn]
    exact List.not_mem_nil
  · intro t ht
    rw [List.mem_singleton.mp ht]
    rfl
  · rw [hconn]
    rfl

theorem created (hqueue : ∀ loop, w.queueOf i loop = []) (htodo : ∀ loop, w.todoOf i loop = [])
    (hhistory : w.historyOf i = []) (hconn : ∃ wcc, c.conn = .create none (8*1024*1024) wcc)
    (hentry : w.server.connections c.name = some i) : w.Balanced i [.connectEstablished i] c := by
  have hflushed : c.conn.pendingFunctors = [] := by
    obtain ⟨wcc,heq⟩ := hconn
    rw [heq]
    rfl
  have htrace : c.conn.trace = [] := by
    obtain ⟨wcc,heq⟩ := hconn
    rw [heq]
    rfl
  refine ⟨fun loop _ => htodo loop,fun loop _ f hf => ?_,fun loop _ hf => ?_,hflushed,fun _ => ⟨hconn,htodo _,?_⟩,
    ?_,?_,?_,?_,fun _ => ?_⟩
  · rw [hqueue] at hf
    cases hf
  · rw [hqueue] at hf
    cases hf
  · rw [hqueue]
    simp
  · rw [hqueue,hhistory]
    simp
  · rw [hqueue,hhistory,htodo,htrace]
    simp
  · rw [hqueue,hhistory,htodo]
    simp
  · rw [hhistory]
    exact hentry
  · rw [hhistory]
    exact List.nil_prefix

theorem runTask {http : Option HttpServer} {t : TcpConnection.Task} {e : Choice} {ts : List (ℕ × TcpConnection.Task)}
    {loop : ℕ} (h : w.Balanced i [] c) (hget : w.conns[i]? = some c) (htodo : w.todo loop = (i,t)::ts)
    (hrun : (w.setTodo loop ts).runTask http loop i t e c = some w') :
    ∃ c', w'.conns[i]? = some c' ∧ c'.name = c.name ∧ w'.Balanced i [] c' := by
  have htake := h.takeTask htodo
  obtain ⟨rfl,hestablished⟩ := h.busy htodo
  rw [World.runTask] at hrun
  split at hrun
  · rename_i ht
    cases hrun
    rw [Functor.ofTask,if_pos ht] at htake
    refine ⟨c,?_,rfl,htake.removeConnection⟩
    rw [removeConnection_conns]
    exact hget
  · rename_i ht
    split at hrun
    · cases hrun
    · rename_i hacts
      obtain ⟨p,hp,rfl⟩ := Option.map_eq_some_iff.mp hrun
      have hlt := (List.getElem?_eq_some_iff.mp hget).1
      have hfunctors := TcpConnection.run_queues hp ht h.flushed
      have htasks := TcpConnection.run_notDestroys hp hacts
      have hcloses := TcpConnection.run_handleClose hp
      rw [Functor.ofTask,if_neg ht] at htake
      refine ⟨{ c with conn := { p.1 with pendingFunctors := [] } },?_,rfl,?_⟩
      · split <;> exact List.getElem?_set_self hlt
      · split
        · rename_i hdestroys
          rw [if_pos hdestroys] at htake
          exact htake.recordDestroyed.store hestablished hfunctors htasks hcloses
        · rename_i hdestroys
          rw [if_neg hdestroys] at htake
          exact htake.store hestablished hfunctors htasks hcloses

end Balanced

end World
end TcpServer
end GgLib
