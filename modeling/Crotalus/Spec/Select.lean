import Crotalus.Server.Select
import Crotalus.Spec.Sys

namespace Crotalus

open Stateful

@[simp] theorem exec_setPlace (p : Place) (c : Conn) :
    exec (setPlace p) c = { c with place := p } := (rfl)

@[simp] theorem place_fdClr (fd : Nat) (d : Dir) (c : Conn) :
    (exec (fdClr fd d) c).place = c.place := by cases d <;> rfl
@[simp] theorem wire_fdClr (fd : Nat) (d : Dir) (c : Conn) :
    (exec (fdClr fd d) c).wire = c.wire := by cases d <;> rfl
@[simp] theorem req_fdClr (fd : Nat) (d : Dir) (c : Conn) :
    (exec (fdClr fd d) c).req = c.req := by cases d <;> rfl
@[simp] theorem place_fdSet (fd : Nat) (d : Dir) (c : Conn) :
    (exec (fdSet fd d) c).place = c.place := by cases d <;> rfl
@[simp] theorem wire_fdSet (fd : Nat) (d : Dir) (c : Conn) :
    (exec (fdSet fd d) c).wire = c.wire := by cases d <;> rfl
@[simp] theorem req_fdSet (fd : Nat) (d : Dir) (c : Conn) :
    (exec (fdSet fd d) c).req = c.req := by cases d <;> rfl

/-! Waiting and waking leave the request and the wire alone. -/

section Frame

variable (e : Config) (c : Conn)

@[simp] theorem req_readyRequest : (exec (readyRequest e) c).req = c.req := by
  simp [readyRequest]
@[simp] theorem wire_readyRequest : (exec (readyRequest e) c).wire = c.wire := by
  simp [readyRequest]
@[simp] theorem req_blockRequest : (exec (blockRequest e) c).req = c.req := by
  simp [blockRequest]
@[simp] theorem wire_blockRequest : (exec (blockRequest e) c).wire = c.wire := by
  simp [blockRequest]

@[simp] theorem req_awaitFd (fd : Nat) (d : Dir) : (exec (awaitFd e fd d) c).req = c.req := by
  simp only [awaitFd, exec_bind, exec_get, value_get, exec_ite]
  split <;> simp
@[simp] theorem wire_awaitFd (fd : Nat) (d : Dir) : (exec (awaitFd e fd d) c).wire = c.wire := by
  simp only [awaitFd, exec_bind, exec_get, value_get, exec_ite]
  split <;> simp

theorem updateBlocked_frame :
    (exec (updateBlocked e) c).req = c.req ∧ (exec (updateBlocked e) c).wire = c.wire := by
  simp only [updateBlocked, exec_bind, exec_getReq, value_getReq, exec_ite]
  split
  · simp
  · cases c.req.status with
    | ioshuffle =>
      simp only [exec_ite]
      split
      · simp only [exec_bind, exec_get, value_get, exec_ite]
        split <;> simp
      · simp
    | _ => simp

/-- A pass of `fdset_update` changes nothing of a request but its status, to TIMED_OUT. -/
theorem fdsetUpdate_frame (readyR readyW : Nat → Bool) :
    (exec (do
      selectFds readyR readyW
      fdsetUpdate e) c).wire = c.wire ∧
    ((exec (do
      selectFds readyR readyW
      fdsetUpdate e) c).req = c.req ∨
    (exec (do
      selectFds readyR readyW
      fdsetUpdate e) c).req = { c.req with status := .timedOut }) := by
  simp only [fdsetUpdate, exec_bind, exec_get, value_get, exec_onlyIf, (updateBlocked_frame e _).1,
    (updateBlocked_frame e _).2]
  split
  · exact ⟨rfl, .inr rfl⟩
  · exact ⟨rfl, .inl rfl⟩

end Frame

end Crotalus
