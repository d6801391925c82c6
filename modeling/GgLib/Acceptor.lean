import Mathlib.Tactic.Common
import Mathlib.Data.Nat.Notation

/-! `Acceptor::handleRead` on a listening socket. The kernel reserves a descriptor before it
looks at the backlog, so that `accept` fails with EMFILE whenever none is free. Any other
error than the ones below ends the process in `sockets::accept`. -/
namespace GgLib

namespace Acceptor

/-- The errors that `accept` passes on from a connection or a signal. -/
inductive Transient
  | EINTR | ECONNABORTED | EPROTO | EPERM
  deriving DecidableEq, Repr

inductive Errno
  | EAGAIN
  | EMFILE
  | transient (errno : Transient)
  deriving DecidableEq, Repr

/-- What `accept` will meet next: a connection, with whether `newConnectionCallback_` keeps
its descriptor, or an error. -/
inductive Pending
  | connection (keeps : Bool)
  | error (errno : Transient)
  deriving DecidableEq, Repr

end Acceptor

/-- `free` are the descriptors that the process may still open; `idleFd` tells whether
`idleFd_` is open, `newConnectionCallback` whether one is set. -/
structure Acceptor where
  free : ℕ
  backlog : List Acceptor.Pending
  idleFd : Bool
  newConnectionCallback : Bool
  deriving DecidableEq, Repr

namespace Acceptor

variable (w : Acceptor)

/-- `accept4` and `accept`: whether the callback would keep the new descriptor, or the error. -/
def accept : Except Errno Bool × Acceptor :=
  if w.free = 0 then (.error .EMFILE,w)
  else
    match w.backlog with
    | [] => (.error .EAGAIN,w)
    | .connection keeps::backlog => (.ok keeps,{ w with free := w.free-1, backlog })
    | .error errno::backlog => (.error (.transient errno),{ w with backlog })

/-- A descriptor other than `idleFd_` is closed. -/
def close : Acceptor := { w with free := w.free+1 }

/-- Closing -1 fails. -/
def closeIdle : Acceptor := if w.idleFd then { w with free := w.free+1, idleFd := false } else w

/-- Open `/dev/null` as `idleFd_`. -/
def openIdle : Acceptor :=
  if w.free = 0 then { w with idleFd := false } else { w with free := w.free-1, idleFd := true }

/-- Drop the next connection, with the descriptor that `idleFd_` holds in reserve. -/
def dropNext : Acceptor :=
  let w := w.closeIdle
  let w :=
    match w.accept with
    | (.ok _,w) => { w with idleFd := true }
    | (.error _,w) => { w with idleFd := false }
  w.closeIdle.openIdle

/-- One iteration of the loop: whether it breaks, and the state behind it. -/
def turn : Bool × Acceptor :=
  match w.accept with
  | (.ok keeps,w) => (false,if w.newConnectionCallback && keeps then w else w.close)
  | (.error .EAGAIN,w) => (true,w)
  | (.error .EMFILE,w) => (false,w.dropNext)
  | (.error (.transient _),w) => (false,w)

/-- The loop for at most `n` iterations; `none` when they do not suffice. -/
def handleRead : ℕ → Acceptor → Option Acceptor
  | 0, _ => none
  | n+1, w => if w.turn.1 then some w.turn.2 else handleRead n w.turn.2

/-- The connections of the backlog whose descriptors the callback keeps. -/
def kept : ℕ := if w.newConnectionCallback then w.backlog.count (.connection true) else 0

variable {w}

theorem turn_free {free : ℕ} (h : w.free = free+1) :
    w.turn =
      match w.backlog with
      | [] => (true,w)
      | .connection keeps::backlog =>
        (false,{ w with free := if w.newConnectionCallback && keeps then free else free+1, backlog })
      | .error _::backlog => (false,{ w with backlog }) := by
  have hne : w.free ≠ 0 := by omega
  rw [turn,accept,if_neg hne]
  cases w.backlog with
  | nil => rfl
  | cons p backlog =>
    cases p with
    | connection keeps =>
      simp only [h,Nat.add_sub_cancel]
      split <;> rfl
    | error errno => rfl

/-- Without one the next pending result is dropped, and none is free behind that either. -/
theorem turn_exhausted (h : w.free = 0) (hidle : w.idleFd = true) :
    w.turn = (false,{ w with backlog := w.backlog.tail }) := by
  obtain ⟨free,backlog,idleFd,callback⟩ := w
  subst h hidle
  cases backlog with
  | nil => rfl
  | cons p backlog => cases p <;> rfl

theorem kept_cons {p : Pending} {backlog : List Pending} (h : w.backlog = p::backlog) :
    w.kept = { w with backlog }.kept + if w.newConnectionCallback && decide (p = .connection true) then 1 else 0 := by
  rw [kept,kept,h]
  cases w.newConnectionCallback <;> simp [List.count_cons]

/-- One iteration for each pending result, and one for EAGAIN, when a descriptor stays free. -/
theorem handleRead_of_lt (h : w.kept < w.free) : (handleRead (w.backlog.length+1) w).isSome = true := by
  obtain ⟨backlog,hbacklog⟩ : ∃ backlog, w.backlog = backlog := ⟨_,rfl⟩
  induction backlog generalizing w with
  | nil =>
    obtain ⟨free,hfree⟩ := Nat.exists_eq_add_of_lt (Nat.lt_of_le_of_lt (Nat.zero_le _) h)
    rw [handleRead,turn_free (show w.free = free+1 by omega),hbacklog]
    rfl
  | cons p backlog ih =>
    obtain ⟨free,hfree⟩ := Nat.exists_eq_add_of_lt (Nat.lt_of_le_of_lt (Nat.zero_le _) h)
    have hkept := kept_cons hbacklog
    rw [handleRead,turn_free (show w.free = free+1 by omega),hbacklog]
    cases p with
    | connection keeps =>
      refine ih (w:={ w with free := if w.newConnectionCallback && keeps then free else free+1, backlog }) ?_ rfl
      show kept { w with backlog } < if w.newConnectionCallback && keeps then free else free+1
      cases hkeeps : w.newConnectionCallback && keeps with
      | true =>
        have hkeep : (w.newConnectionCallback && decide (Pending.connection keeps = .connection true)) = true := by
          simpa using hkeeps
        rw [hkeep,if_pos rfl] at hkept
        rw [if_pos rfl]
        omega
      | false =>
        rw [if_neg (by simp)]
        omega
    | error errno =>
      refine ih (w:={ w with backlog }) ?_ rfl
      show kept { w with backlog } < w.free
      omega

/-- What is pending is used up before a descriptor is free again: the loop goes on for ever. -/
theorem handleRead_of_le (hidle : w.idleFd = true) (h : w.free ≤ w.kept) (n : ℕ) : handleRead n w = none := by
  induction n generalizing w with
  | zero => rfl
  | succ n ih =>
    rw [handleRead]
    cases hfree : w.free with
    | zero =>
      rw [turn_exhausted hfree hidle]
      exact ih (w:={ w with backlog := w.backlog.tail }) hidle (by show w.free ≤ _; omega)
    | succ free =>
      rw [turn_free hfree]
      cases hbacklog : w.backlog with
      | nil =>
        have hkept : w.kept = 0 := by simp [kept,hbacklog]
        omega
      | cons p backlog =>
        have hkept := kept_cons hbacklog
        cases p with
        | connection keeps =>
          refine ih (w:={ w with free := if w.newConnectionCallback && keeps then free else free+1, backlog }) hidle ?_
          show (if w.newConnectionCallback && keeps then free else free+1) ≤ kept { w with backlog }
          cases hkeeps : w.newConnectionCallback && keeps with
          | true =>
            rw [if_pos rfl]
            split at hkept <;> omega
          | false =>
            have hdrop : (w.newConnectionCallback && decide (Pending.connection keeps = .connection true)) = false := by
              simpa using hkeeps
            rw [hdrop,if_neg (by simp)] at hkept
            rw [if_neg (by simp)]
            omega
        | error errno =>
          have hdrop : (w.newConnectionCallback && decide (Pending.error errno = .connection true)) = false := by simp
          rw [hdrop,if_neg (by simp)] at hkept
          exact ih (w:={ w with backlog }) hidle (by show w.free ≤ _; omega)

/-- For every backlog, every sequence of errors and every number of free descriptors: the
loop of `handleRead` exits if and only if the callback keeps fewer connections of the
backlog than there are free descriptors. -/
theorem handleRead_exits_iff (w : Acceptor) (hidle : w.idleFd = true) :
    (∃ n, (handleRead n w).isSome = true) ↔ w.kept < w.free := by
  constructor
  · rintro ⟨n,hn⟩
    by_contra h
    rw [handleRead_of_le hidle (by omega) n] at hn
    cases hn
  · exact fun h => ⟨_,handleRead_of_lt h⟩

/-- Two connections, one of them kept, and an interrupted call in between. -/
def backlogOfTwo : Acceptor :=
  ⟨2,[.connection true,.error (.EINTR),.connection false],true,true⟩

theorem handleRead_exits_iff_backlogOfTwo : ∃ n, (handleRead n backlogOfTwo).isSome = true :=
  (handleRead_exits_iff backlogOfTwo rfl).mpr (by decide)

/-- The last free descriptor was taken, and nothing is pending. -/
theorem handleRead_spins :
    ¬ ∀ w : Acceptor, w.idleFd = true → ∃ n, (handleRead n w).isSome = true := by
  intro h
  obtain ⟨n,hn⟩ := h ⟨0,[],true,true⟩ rfl
  rw [handleRead_of_le rfl (Nat.zero_le _) n] at hn
  cases hn

end Acceptor
end GgLib
