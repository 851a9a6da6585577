import Crotalus.Framework.Run
import Crotalus.Server.Cgi
import Crotalus.Server.Pipe
import Crotalus.Spec.Sys

namespace Crotalus

open Stateful

/-! What the answer of a worker does to the request that waits for it. -/

/-- A result that comes through takes its request out of the wait. -/
theorem cgiWorkResp_status (data : List Byte) (c : Conn) :
    (exec (cgiWorkResp 0 data) c).req.status = .buffRead := rfl

theorem getElem?_cgiWorkRespAmong (err : Int) (buff : List Byte) (cs : List Conn) (j : Nat) :
    (cgiWorkRespAmong err buff cs)[j]? =
      if err = 0 ∧ findRequestByFd (workFd buff) cs = some j then
        (cs[j]?).map (exec (cgiWorkResp 0 (buff.drop 4)))
      else cs[j]? := by
  unfold cgiWorkRespAmong
  by_cases herr : err = 0
  · subst herr
    rw [if_neg (by decide)]
    cases hfind : findRequestByFd (workFd buff) cs with
    | none => rw [if_neg (by simp)]
    | some i =>
      rw [List.getElem?_modify]
      by_cases hij : i = j
      · subst hij
        rw [if_pos ⟨rfl, rfl⟩]
        cases cs[i]? <;> simp
      · rw [if_neg (fun h => hij (Option.some.inj h.2))]
        cases cs[j]? <;> simp [hij]
  · rw [if_pos herr, if_neg (fun h => herr h.1)]

/-- The descriptors of open connections differ, so the one of a request that is not free
finds it; a free request may still have the number of one that is open. -/
theorem findRequestByFd_open {cs : List Conn} {j : Nat} {c : Conn} (hj : cs[j]? = some c)
    (hopen : c.place ≠ .free)
    (hfd : ∀ i d, cs[i]? = some d → d.place ≠ .free → d.req.fd = c.req.fd → i = j) :
    findRequestByFd c.req.fd cs = some j := by
  obtain ⟨hlt, hget⟩ := List.getElem?_eq_some_iff.mp hj
  have hfound : ∀ q : Place, c.place = q →
      cs.findIdx? (fun d => d.place = q ∧ (d.req.fd : Int) = c.req.fd) = some j := by
    intro q hq
    rw [List.findIdx?_eq_some_iff_getElem]
    refine ⟨hlt, by simp [hget, hq], fun i hi => ?_⟩
    simp only [decide_eq_true_eq, not_and]
    intro hplace hsame
    have hij := hfd i cs[i] (List.getElem?_eq_getElem _) (by rw [hplace, ← hq]; exact hopen)
      (Int.ofNat_inj.mp hsame)
    omega
  have hmissed : ∀ q : Place, q ≠ .free → c.place ≠ q →
      cs.findIdx? (fun d => d.place = q ∧ (d.req.fd : Int) = c.req.fd) = none := by
    intro q hq hne
    rw [List.findIdx?_eq_none_iff]
    intro d hd
    rw [decide_eq_false_iff_not]
    rintro ⟨hplace, hsame⟩
    obtain ⟨i, hi⟩ := List.mem_iff_getElem?.mp hd
    have hij := hfd i d hi (by rw [hplace]; exact hq) (Int.ofNat_inj.mp hsame)
    rw [hij, hj] at hi
    exact hne (Option.some.inj hi ▸ hplace)
  unfold findRequestByFd
  cases hplace : c.place with
  | ready => simp only [hfound .ready hplace, Option.some_or]
  | block =>
    simp only [hmissed .ready (by decide) (by rw [hplace]; decide), hfound .block hplace,
      Option.none_or, Option.some_or]
  | free => exact absurd hplace hopen

/-- The poll of a request without a result leaves it where it is, to be polled again. -/
theorem pollFromShbuff_waits (e : Config) {c : Conn} (hlib : e.build.haveLibshare = true)
    (hpool : c.sys.pool = true) (hres : c.sys.results = []) (hbuff : c.req.buff.getD [] = []) :
    value (pollFromShbuff e) c = 1 ∧ (exec (pollFromShbuff e) c).req = c.req ∧
      (exec (pollFromShbuff e) c).place = c.place := by
  simp [pollFromShbuff, pollCollect, cgiWorkResps, hlib, hpool, hres, hbuff]

/-- A request has left the wait after the callback just when it had left it before, or the
worker reports success and is found to report to this request. -/
theorem cgiWorkResp_ends_wait_iff (err : Int) (buff : List Byte) (cs : List Conn) (j : Nat)
    (c : Conn) (hj : cs[j]? = some c) :
    ((cgiWorkRespAmong err buff cs)[j]?).map (·.req.status) ≠ some .buffPoll ↔
      c.req.status ≠ .buffPoll ∨
        err = 0 ∧ findRequestByFd (workFd buff) cs = some j := by
  rw [getElem?_cgiWorkRespAmong, hj]
  split
  · rename_i h
    refine ⟨fun _ => .inr h, fun _ => ?_⟩
    rw [Option.map_some, Option.map_some, cgiWorkResp_status]
    decide
  · rename_i h
    rw [Option.map_some, ne_eq, Option.some.injEq]
    exact ⟨.inl, fun hor => hor.resolve_right h⟩

/-- A request that waits for a worker's answer on descriptor 5. -/
def waiter : Conn := { req := { status := .buffPoll, fd := 5 } }

theorem cgiWorkResp_ends_wait :
    ((cgiWorkRespAmong 0 [5, 0, 0, 0, 65] [waiter])[0]?).map (·.req.status) ≠ some .buffPoll :=
  (cgiWorkResp_ends_wait_iff 0 [5, 0, 0, 0, 65] [waiter] 0 waiter rfl).mpr
    (.inr ⟨rfl, by decide⟩)

/-- A worker that fails. -/
theorem cgiWorkResp_keeps_waiting :
    ¬((cgiWorkRespAmong (-1) [5, 0, 0, 0] [waiter])[0]?).map (·.req.status) ≠ some .buffPoll := by
  rintro h
  exact h rfl

end Crotalus
