import Crotalus.Server.Work
import Crotalus.Spec.LineBytes
import Crotalus.Properties.WorkResult
import Crotalus.Properties.WorkRelay

namespace Crotalus

open Stateful

/-! A script that a worker runs: its output on the way to the client. -/

section Pieces

variable {n : Nat} {acc out : List Byte}

/-- `fgets` loses nothing. -/
theorem fgetsFrom_flatten : (fgetsFrom n acc out).flatten=acc.reverse++out := by
  induction out generalizing acc with
  | nil =>
    rw [fgetsFrom]
    split
    · rename_i h
      rw [h]
      rfl
    · rw [List.flatten_singleton,List.append_nil]
  | cons b bs ih =>
    rw [fgetsFrom]
    split
    · rw [List.flatten_cons,ih,List.reverse_cons,List.reverse_nil,List.nil_append,
        List.append_assoc,List.singleton_append]
    · rw [ih,List.reverse_cons,List.append_assoc,List.singleton_append]

theorem fgets_flatten (n : Nat) (out : List Byte) : (fgets n out).flatten=out := fgetsFrom_flatten

/-- `strlen` of each piece: no byte is added, and none is kept behind a NUL. -/
theorem cString_parts (ps : List (List Byte)) :
    (ps.flatMap cString).length ≤ ps.flatten.length ∧
      ((ps.flatMap cString).length=ps.flatten.length → 0∉ps.flatten) := by
  induction ps with
  | nil => exact ⟨Nat.le_refl 0,fun _ => List.not_mem_nil⟩
  | cons p ps ih =>
    have hp : (cString p).length ≤ p.length := (List.takeWhile_prefix _).length_le
    rw [List.flatMap_cons,List.flatten_cons,List.length_append,List.length_append]
    refine ⟨Nat.add_le_add hp ih.1,fun heq => ?_⟩
    have hle := ih.1
    have hsame : (cString p).length=p.length := by omega
    have hwhole : cString p=p := (List.takeWhile_prefix _).eq_of_length hsame
    have hnone : 0∉p := hwhole ▸ cText_noNull p
    rw [List.mem_append,not_or]
    exact ⟨hnone,ih.2 (by omega)⟩

/-- The worker collects all of the output just when no NUL is in it. -/
theorem collectOutput_iff (out : List Byte) : collectOutput out=out ↔ 0∉out := by
  have hall := fgets_flatten 4095 out
  constructor
  · intro h
    have hlen : ((fgets 4095 out).flatMap cString).length=(fgets 4095 out).flatten.length := by
      rw [hall]
      exact congrArg List.length h
    exact hall ▸ (cString_parts _).2 hlen
  · intro h
    rw [← hall] at h
    have hself : ∀ p∈fgets 4095 out,cString p=p := fun p hp =>
      cText_self fun h0 => h (List.mem_flatten_of_mem hp h0)
    rw [collectOutput,List.flatMap_congr hself,List.flatMap_id',hall]

/-- The descriptor comes back as it was sent. -/
theorem workFd_le32 {fd : Nat} (h : fd < 2^31) (bs : List Byte) : workFd (le32 fd++bs)=fd := by
  have hbytes : (UInt8.ofNat fd).toNat+256*((UInt8.ofNat (fd/256)).toNat+
      256*((UInt8.ofNat (fd/256^2)).toNat+256*((UInt8.ofNat (fd/256^3)).toNat+256*0)))=fd := by
    simp only [UInt8.toNat_ofNat']
    omega
  rw [workFd]
  simp only [le32,List.cons_append,List.take_succ_cons,List.take_zero,List.foldr_cons,
    List.foldr_nil]
  rw [hbytes,u32,Nat.mod_eq_of_lt (by omega),i32]
  simp only [Int.bmod]
  omega

end Pieces

/-! From the worker to the client. -/

/-- A request whose job is with a worker, among all requests: no other open one has its
descriptor. -/
structure Waits (cs : List Conn) (j : Nat) (c : Conn) : Prop where
  here : cs[j]?=some c
  kind : c.req.cgiType=.work
  on : c.place≠.free
  alone : ∀ i d,cs[i]?=some d → d.place≠.free → d.req.fd=c.req.fd → i=j
  fd : c.req.fd < 2^31
  empty : c.req.bufferEnd=0
  fresh : c.req.buff.getD []=[]

variable {e : Config} {p : Worker} {cs : List Conn} {j : Nat} {c : Conn} {out : List Byte}

/-- The command of a script that the pool runs is its path. -/
theorem cgiWorkMain_script (hkind : c.req.cgiType=.work) (post : List Byte) :
    cgiWorkMain p c.req.work post=
      match p.popen none ((cString c.req.work.pathname).take (maxPathLength-2))
          (if c.req.method=.post then some post else none) with
      | .error errno => .error (-errno)
      | .ok out => .ok (le32 c.req.fd++collectOutput out) := by
  have hwork : c.req.work.cgiType=.work := hkind
  simp only [cgiWorkMain,Worker.command,hwork,reduceCtorEq,if_false,or_self]
  rfl

/-- The pool brings the output to the request that waits for it, and to no other. -/
theorem workDone_collects (h : Waits cs j c) (out : List Byte) :
    (∀ i,i≠j → (workDone (.ok (le32 c.req.fd++collectOutput out)) cs)[i]?=cs[i]?) ∧
      (workDone (.ok (le32 c.req.fd++collectOutput out)) cs)[j]?=
        some (exec (cgiWorkResp 0 (collectOutput out)) c) := by
  have hfd := workFd_le32 h.fd (collectOutput out)
  have hfind := findRequestByFd_open h.here h.on h.alone
  have hdrop : (le32 c.req.fd++collectOutput out).drop 4=collectOutput out := rfl
  constructor
  · intro i hi
    rw [workDone,getElem?_cgiWorkRespAmong,hfd,hfind,if_neg]
    rintro ⟨-,hj⟩
    exact hi (Option.some.inj hj).symm
  · rw [workDone,getElem?_cgiWorkRespAmong,hfd,hfind,if_pos ⟨rfl,rfl⟩,h.here,hdrop]
    rfl

/-- The path that the shell of the worker is given. -/
def Request.workCommand (r : Request) : Text :=
  (cString r.work.pathname).take (maxPathLength-2)

/-- The standard input of the script. -/
def Request.workInput (r : Request) (post : List Byte) : Option (List Byte) :=
  if r.method=.post then some post else none

/-- A worker has run a script: the request that waits for it, and no other, is given the output;
in every run of it what the client has got is the front of that, and the request ends, when the
socket has taken something often enough, with all of it on the wire. That is what the script has
written just when it has written no NUL. -/
theorem worker_script_answered (hlib : e.build.haveLibshare=true) (h : Waits cs j c)
    (post : List Byte)
    (hrun : p.popen none c.req.workCommand (c.req.workInput post)=.ok out) :
    (∀ i,i≠j → (workDone (cgiWorkMain p c.req.work post) cs)[i]?=cs[i]?) ∧
      ∃ c',(workDone (cgiWorkMain p c.req.work post) cs)[j]?=some c' ∧
        ∀ ws : List World,(∀ w∈ws,∀ err, .fail err∈w.sock → err.retried=true) →
          (∀ s∈Run.states (relayTurn e) (c'.relayed0 false) ws,
            s.conn.wire <+: c.wire++collectOutput out ∧ (s.ended=true →
              s.conn.wire=c.wire++collectOutput out ∧ (s.conn.wire=c.wire++out ↔ 0∉out))) ∧
          (2*out.length+1 < (ws.filter World.takes).length →
            (Run.final (relayTurn e) (c'.relayed0 false) ws).ended=true) := by
  have hmain : cgiWorkMain p c.req.work post=.ok (le32 c.req.fd++collectOutput out) := by
    unfold Request.workCommand Request.workInput at hrun
    rw [cgiWorkMain_script h.kind,hrun]
  obtain ⟨hothers,hmine⟩ := workDone_collects h out
  rw [hmain]
  refine ⟨hothers,_,hmine,fun ws hws => ?_⟩
  have hnot : c.req.cgiType≠.exec := by rw [h.kind]; decide
  have hwire : (exec (cgiWorkResp 0 (collectOutput out)) c).wire=c.wire := rfl
  obtain ⟨hall,hends⟩ := worker_answer_delivered e hlib
    (cgiWorkResp_collected hnot h.empty h.fresh (collectOutput out)) ws hws
  rw [hwire] at hall
  constructor
  · intro s hs
    obtain ⟨hgoing,hended⟩ := hall s hs
    constructor
    · cases hend : s.ended with
      | true => exact hended hend ▸ List.prefix_refl _
      | false => exact hgoing hend ▸ List.prefix_append _ _
    · intro hend
      refine ⟨hended hend,?_⟩
      rw [hended hend,List.append_cancel_left_eq]
      exact collectOutput_iff out
  · intro hmany
    have hshort : (collectOutput out).length ≤ out.length := by
      have hle := (cString_parts (fgets 4095 out)).1
      rwa [fgets_flatten] at hle
    exact hends (by omega)

/-- A shell whose programs all write the same five bytes. -/
def hello : Worker := ⟨fun _ => true,true,fun _ _ _ => .ok (str "hello"),fun _ => []⟩

def scriptWaits : Conn where
  req := { status := .buffPoll, cgiType := .work, fd := 5, pathname := some (str "/cgi/hello") }

theorem worker_script_answered_hello :
    (Run.final (relayTurn { build := { haveLibshare := true } })
      ((exec (cgiWorkResp 0 (str "hello")) scriptWaits).relayed0 false)
      (List.replicate 13 { sock := [.done 9] })).conn.wire=str "hello" := by
  have hwaits : Waits [scriptWaits] 0 scriptWaits := by
    refine ⟨rfl,rfl,by decide,?_,by decide,rfl,rfl⟩
    intro i d hi _ _
    cases i with
    | zero => rfl
    | succ i => cases hi
  have hrun : hello.popen none scriptWaits.req.workCommand (scriptWaits.req.workInput [])=
      .ok (str "hello") := rfl
  obtain ⟨-,c',hc',hall⟩ := worker_script_answered (e := { build := { haveLibshare := true } })
    rfl hwaits [] hrun
  have hsame : exec (cgiWorkResp 0 (str "hello")) scriptWaits=c' := Option.some.inj hc'
  obtain ⟨hruns,hends⟩ := hall (List.replicate 13 { sock := [.done 9] }) (by
    intro w hw err herr
    rw [(List.mem_replicate.mp hw).2] at herr
    cases herr with
    | tail _ h => cases h)
  rw [hsame]
  exact (hruns _ (Run.final_mem_states _ _)).2 (hends (by decide)) |>.1

end Crotalus
