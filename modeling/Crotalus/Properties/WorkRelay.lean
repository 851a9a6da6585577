import Crotalus.Properties.PipeRelay

namespace Crotalus

open Stateful ByteMem

/-! The relay of a worker's answer: `read_from_shbuff` and `write_from_shbuff` in turns. -/

/-- The answer of a worker is in the request's buffer and its header, if it has one, is handled. -/
structure Collected (c : Conn) (answer : List Byte) : Prop where
  status : c.req.status=.buffRead
  parsed : c.req.cgiStatus≠.parse
  drained : c.req.bufferEnd=0
  sent : c.req.headerLine=c.req.headerEnd
  room : c.req.headerEnd ≤ bufferSize
  buff : c.req.buff=some answer

/-- A request that had no answer before has all of this one, unless it is of a program whose
header is still to be read. -/
theorem cgiWorkResp_collected {c : Conn} (hkind : c.req.cgiType≠.exec) (hempty : c.req.bufferEnd=0)
    (hbuff : c.req.buff.getD []=[]) (answer : List Byte) :
    Collected (exec (cgiWorkResp 0 answer) c) answer := by
  have hrun : (exec (cgiWorkResp 0 answer) c).req={ c.req with
      postDataFd := if c.req.method=.post then 0 else c.req.postDataFd
      buff := some (c.req.buff.getD []++answer)
      status := .buffRead
      cgiStatus := .buffer
      headerArea := .buffer
      headerLine := 0
      headerEnd := 0
      filepos := 0 } := by
    simp [cgiWorkResp,setStatus,hkind]
  rw [hbuff,List.nil_append] at hrun
  constructor <;> rw [hrun]
  · intro hp
    cases hp
  · exact hempty
  · show (0 : Nat) ≤ bufferSize
    omega

/-- What is left of the answer, in the window and behind it. -/
def Conn.unsentAnswer (c : Conn) : List Byte := c.req.unsent++c.req.buff.getD []

/-- The answer is on its way: what has left the request's buffer is on the wire or in the window. -/
structure Answering (wire answer : List Byte) (c : Conn) : Prop where
  split : c.wire++c.unsentAnswer=wire++answer
  parsed : c.req.cgiStatus≠.parse
  drained : c.req.bufferEnd=0
  order : c.req.headerLine ≤ c.req.headerEnd
  room : c.req.headerEnd ≤ bufferSize+1
  short : c.req.headerLine=c.req.headerEnd → c.req.headerEnd ≤ bufferSize
  buff : c.req.buff.isSome=true
  status : c.req.status=.buffRead ∨ c.req.status=.buffWrite
  ends : c.req.status=.buffWrite → c.req.headerLine=c.req.headerEnd →
    c.req.cgiStatus=.done ∧ c.req.buff.getD []=[]

variable {wire answer : List Byte} {c : Conn}

theorem Collected.answering (h : Collected c answer) : Answering c.wire answer c := by
  have hnone : c.req.unsent=[] := by
    rw [← List.length_eq_zero_iff,length_unsent,h.sent,Nat.sub_self]
  refine ⟨?_,h.parsed,h.drained,Nat.le_of_eq h.sent,Nat.le_succ_of_le h.room,fun _ => h.room,?_,
    .inl h.status,?_⟩
  · rw [Conn.unsentAnswer,hnone,h.buff,List.nil_append,Option.getD_some]
  · rw [h.buff,Option.isSome_some]
  · intro hw
    rw [h.status] at hw
    cases hw

/-- Two bytes are worth more than the turn that finds the answer at its end. -/
def Conn.toAnswer (c : Conn) : Nat :=
  2*c.unsentAnswer.length+if c.req.status=.buffRead then 1 else 0

section Turns

variable (e : Config)

/-- What a turn does: it has ended the request with all of the answer on the wire, or is nearer
to that, or the socket has held it up. -/
def Advances (wire answer : List Byte) (c c' : Conn) (v : Int) : Prop :=
  v=0 ∧ c'.wire=wire++answer ∨
    v≠0 ∧ Answering wire answer c' ∧ c'.toAnswer ≤ c.toAnswer ∧
      (c.sys.takes=true → c'.toAnswer < c.toAnswer)

theorem writeFrom_advances (h : Answering wire answer c) (hlt : c.req.headerLine < c.req.headerEnd)
    (hg : ∀ err, .fail err∈c.sys.sock → err.retried=true) :
    Advances wire answer c (exec (writeFrom .buffRead) c) (value (writeFrom .buffRead) c) := by
  have halive : Status.buffRead≠.dead := by decide
  obtain ⟨hsent,hv⟩ := writeFrom_sends halive hlt hg
  have hless : c.sys.takes=true →
      (exec (writeFrom .buffRead) c).req.unsent.length < c.req.unsent.length :=
    writeFrom_progress halive hlt
  generalize exec (writeFrom .buffRead) c=c' at hsent hless ⊢
  have hbehind : c'.unsentAnswer=c'.req.unsent++c.req.buff.getD [] := by rw [Conn.unsentAnswer,hsent.buff]
  have hle : c'.req.unsent.length ≤ c.req.unsent.length := by
    have hlen := congrArg List.length hsent.split
    have hgrows := hsent.grows.length_le
    rw [List.length_append,List.length_append] at hlen
    omega
  have hsplit : c'.wire++c'.unsentAnswer=wire++answer := by
    rw [hbehind,← List.append_assoc,hsent.split,List.append_assoc]
    exact h.split
  have hcgi : c'.req.cgiStatus≠.parse := hsent.cgi ▸ h.parsed
  have hempty : c'.req.bufferEnd=0 := hsent.drained.trans h.drained
  have hbuff : c'.req.buff.isSome=true := hsent.buff ▸ h.buff
  refine .inr ⟨hv,?_,?_⟩
  · rcases hsent.left with ⟨hmore,hend,hst⟩|⟨hline,hend,hst⟩
    · exact ⟨hsplit,hcgi,hempty,Nat.le_of_lt hmore,hend ▸ h.room,
        fun heq => absurd heq (Nat.ne_of_lt hmore),hbuff,hst ▸ h.status,
        fun _ heq => absurd heq (Nat.ne_of_lt hmore)⟩
    · apply Answering.mk hsplit hcgi hempty
      · omega
      · omega
      · omega
      · exact hbuff
      · exact .inl hst
      · intro hw
        rw [hst] at hw
        cases hw
  · have hworth : 2*c'.req.unsent.length+(if c'.req.status=.buffRead then 1 else 0) ≤
          2*c.req.unsent.length+(if c.req.status=.buffRead then 1 else 0) ∧
        (c'.req.unsent.length < c.req.unsent.length →
          2*c'.req.unsent.length+(if c'.req.status=.buffRead then 1 else 0)<
            2*c.req.unsent.length+(if c.req.status=.buffRead then 1 else 0)) := by
      rcases hsent.left with ⟨-,-,hst⟩|⟨hline,hend,-⟩
      · rw [hst]
        omega
      · -- the window is empty, and the next turn reads
        have hnone : c'.req.unsent.length=0 := by rw [length_unsent,hline,hend]
        have hsome : 0 < c.req.unsent.length := by
          rw [length_unsent]
          omega
        rw [hnone]
        split <;> split <;> omega
    rw [Conn.toAnswer,Conn.toAnswer,hbehind,Conn.unsentAnswer,List.length_append,List.length_append]
    refine ⟨by omega,fun htakes => ?_⟩
    have := hworth.2 (hless htakes)
    omega

/-- A turn in BUFF_WRITE. -/
theorem writeTurn_advances (h : Answering wire answer c) (hst : c.req.status=.buffWrite)
    (hg : ∀ err, .fail err∈c.sys.sock → err.retried=true) :
    Advances wire answer c (exec (writeFrom .buffRead) c) (value (writeFrom .buffRead) c) := by
  rcases Nat.lt_or_eq_of_le h.order with hlt|heq
  · exact writeFrom_advances h hlt hg
  · obtain ⟨hdone,hbuff⟩ := h.ends hst heq
    obtain ⟨he,hv⟩ := writeFrom_empty (show Status.buffRead≠.dead by decide) heq
    have hnone : c.req.unsent=[] := by
      rw [← List.length_eq_zero_iff,length_unsent]
      omega
    rw [he,hv,if_pos hdone,if_pos hdone]
    have hall := h.split
    rw [Conn.unsentAnswer,hnone,hbuff,List.append_nil,List.append_nil] at hall
    exact .inl ⟨rfl,hall⟩

/-! A turn in BUFF_READ: the window reaches the end of the buffer, or the answer is at its end,
or some of it comes into the window. -/

theorem fullTurn_advances (h : Answering wire answer c) (hst : c.req.status=.buffRead)
    (h0 : c.req.bytesToRead=0) :
    Advances wire answer c (exec (readFull e .buffWrite) c) (value (readFull e .buffWrite) c) := by
  have hroom := bytesToRead_eq h.room
  have hlt : c.req.headerLine < c.req.headerEnd := by
    apply Nat.lt_of_le_of_ne h.order
    intro heq
    have := h.short heq
    omega
  have hrun : exec (readFull e .buffWrite) c={ c with req := { c.req with status := .buffWrite } } ∧
      value (readFull e .buffWrite) c=1 := by
    simp only [readFull,exec_bind,value_bind,exec_getReq,value_getReq,if_neg h.parsed]
    exact ⟨rfl,rfl⟩
  rw [hrun.1,hrun.2]
  refine .inr ⟨by decide,?_,?_⟩
  · exact ⟨h.split,h.parsed,h.drained,h.order,h.room,h.short,h.buff,.inr rfl,
      fun _ heq => absurd heq (Nat.ne_of_lt hlt)⟩
  · have hturn : c.toAnswer=2*c.unsentAnswer.length+1 := by rw [Conn.toAnswer,if_pos hst]
    have hnext : Conn.toAnswer { c with req := { c.req with status := .buffWrite } }=
        2*c.unsentAnswer.length := rfl
    omega

/-- The answer with its first bytes moved behind the window. -/
def Conn.collected (c : Conn) (bs rest : List Byte) : Conn :=
  { c with req := { c.req.stored bs with buff := some rest } }

theorem readFromShbuff_full (hlib : e.build.haveLibshare=true) (hbuff : c.req.buff.isSome=true)
    (h0 : c.req.bytesToRead=0) :
    exec (readFromShbuff e) c=exec (readFull e .buffWrite) c ∧
      value (readFromShbuff e) c=value (readFull e .buffWrite) c := by
  obtain ⟨bs,hbs⟩ := Option.isSome_iff_exists.mp hbuff
  simp only [readFromShbuff,if_pos hlib,exec_bind,value_bind,exec_getReq,value_getReq,hbs,if_pos h0,
    and_self]

theorem readFromShbuff_eof (hlib : e.build.haveLibshare=true) (hp : c.req.cgiStatus≠.parse)
    (h0 : c.req.bytesToRead≠0) (hbuff : c.req.buff=some []) :
    exec (readFromShbuff e) c=
        { c with req := { c.req.stored [] with
            buff := some [],status := .buffWrite,cgiStatus := .done } } ∧
      value (readFromShbuff e) c=1 := by
  simp only [readFromShbuff,if_pos hlib,exec_bind,value_bind,exec_getReq,value_getReq,hbuff,if_neg h0,
    exec_modReq,List.drop_nil,List.take_nil,readDone,if_true,if_neg hp]
  exact ⟨rfl,rfl⟩

theorem readFromShbuff_data (hlib : e.build.haveLibshare=true) (hp : c.req.cgiStatus≠.parse)
    (h0 : c.req.bytesToRead≠0) {bs : List Byte} (hbuff : c.req.buff=some bs) (hbs : bs≠[]) :
    exec (readFromShbuff e) c=exec (writeFrom .buffRead)
        (c.collected (bs.take c.req.bytesToRead) (bs.drop c.req.bytesToRead)) ∧
      value (readFromShbuff e) c=value (writeFrom .buffRead)
        (c.collected (bs.take c.req.bytesToRead) (bs.drop c.req.bytesToRead)) := by
  have htake : bs.take c.req.bytesToRead≠[] := by
    intro hnil
    rcases List.take_eq_nil_iff.mp hnil with hz|hz
    · exact h0 hz
    · exact hbs hz
  simp only [readFromShbuff,if_pos hlib,exec_bind,value_bind,exec_getReq,value_getReq,hbuff,if_neg h0,
    exec_modReq,readDone,if_neg htake]
  rw [if_pos hp]
  exact ⟨rfl,rfl⟩

theorem eofTurn_advances (h : Answering wire answer c) (hst : c.req.status=.buffRead)
    (hbuff : c.req.buff=some []) :
    Advances wire answer c { c with req := { c.req.stored [] with
      buff := some [],status := .buffWrite,cgiStatus := .done } } 1 := by
  have hstored : (c.req.stored []).unsent=c.req.unsent++[] := unsent_stored h.order
  have hbehind : Conn.unsentAnswer { c with req := { c.req.stored [] with
      buff := some [],status := .buffWrite,cgiStatus := .done } }=c.unsentAnswer := by
    show (c.req.stored []).unsent++[]=c.req.unsent++c.req.buff.getD []
    rw [hstored,hbuff,Option.getD_some,List.append_nil]
  refine .inr ⟨by decide,?_,?_⟩
  · apply Answering.mk
    · rw [hbehind]
      exact h.split
    · intro hp
      cases hp
    · exact h.drained
    · exact h.order
    · exact h.room
    · exact h.short
    · rfl
    · exact .inr rfl
    · exact fun _ _ => ⟨rfl,rfl⟩
  · have hturn : c.toAnswer=2*c.unsentAnswer.length+1 := by rw [Conn.toAnswer,if_pos hst]
    have hnext : Conn.toAnswer { c with req := { c.req.stored [] with
        buff := some [],status := .buffWrite,cgiStatus := .done } }=2*c.unsentAnswer.length+0 := by
      rw [Conn.toAnswer,hbehind]
      rfl
    omega

/-- The bytes that come into the window are written on at once, as far as the socket takes
them. -/
theorem dataTurn_advances (h : Answering wire answer c) (hst : c.req.status=.buffRead)
    (hg : ∀ err, .fail err∈c.sys.sock → err.retried=true) {bs rest : List Byte}
    (hbuff : c.req.buff=some (bs++rest)) (hbs : bs≠[])
    (hstop : c.req.headerEnd+bs.length ≤ bufferSize+1) :
    Advances wire answer c (exec (writeFrom .buffRead) (c.collected bs rest))
      (value (writeFrom .buffRead) (c.collected bs rest)) := by
  have horder := h.order
  have hlong := List.length_pos_of_ne_nil hbs
  have hlt : c.req.headerLine < c.req.headerEnd+bs.length := by omega
  have hbehind : (c.collected bs rest).unsentAnswer=c.unsentAnswer := by
    show (c.req.stored bs).unsent++rest=c.req.unsent++c.req.buff.getD []
    rw [unsent_stored h.order,hbuff,Option.getD_some,List.append_assoc]
  have hanswering : Answering wire answer (c.collected bs rest) := by
    apply Answering.mk
    · rw [hbehind]
      exact h.split
    · exact h.parsed
    · exact h.drained
    · exact Nat.le_of_lt hlt
    · exact hstop
    · exact fun heq => absurd heq (Nat.ne_of_lt hlt)
    · rfl
    · exact .inl hst
    · exact fun _ heq => absurd heq (Nat.ne_of_lt hlt)
  have hturn : (c.collected bs rest).toAnswer=c.toAnswer := by
    rw [Conn.toAnswer,hbehind]
    rfl
  have hadv := writeFrom_advances hanswering hlt hg
  unfold Advances at hadv ⊢
  rwa [hturn] at hadv

theorem readTurn_advances (hlib : e.build.haveLibshare=true) (h : Answering wire answer c)
    (hst : c.req.status=.buffRead) (hg : ∀ err, .fail err∈c.sys.sock → err.retried=true) :
    Advances wire answer c (exec (readFromShbuff e) c) (value (readFromShbuff e) c) := by
  obtain ⟨bs,hbuff⟩ := Option.isSome_iff_exists.mp h.buff
  by_cases h0 : c.req.bytesToRead=0
  · obtain ⟨he,hv⟩ := readFromShbuff_full e hlib h.buff h0
    rw [he,hv]
    exact fullTurn_advances e h hst h0
  · by_cases hbs : bs=[]
    · subst hbs
      obtain ⟨he,hv⟩ := readFromShbuff_eof e hlib h.parsed h0 hbuff
      rw [he,hv]
      exact eofTurn_advances h hst hbuff
    · obtain ⟨he,hv⟩ := readFromShbuff_data e hlib h.parsed h0 hbuff hbs
      rw [he,hv]
      have hroom := bytesToRead_eq h.room
      have htaken : (bs.take c.req.bytesToRead).length ≤ c.req.bytesToRead := List.length_take_le _ _
      apply dataTurn_advances h hst hg
      · rw [List.take_append_drop]
        exact hbuff
      · intro hnil
        rcases List.take_eq_nil_iff.mp hnil with hz|hz
        · exact h0 hz
        · exact hbs hz
      · have := h.room
        omega

theorem serveTurn_advances (hlib : e.build.haveLibshare=true) (h : Answering wire answer c)
    (hg : ∀ err, .fail err∈c.sys.sock → err.retried=true) :
    Advances wire answer c (exec (serveTurn e) c) (value (serveTurn e) c) := by
  obtain ⟨he,hv⟩ := serveTurn_drained e h.drained
  rw [he,hv,processStatus]
  simp only [exec_bind,value_bind,exec_getReq,value_getReq]
  rcases h.status with hst|hst
  · rw [hst]
    exact readTurn_advances e hlib h hst hg
  · rw [hst]
    simp only [writeFromShbuff,if_pos hlib]
    exact writeTurn_advances h hst hg

/-- While the request is served the answer is on its way, and once it has ended all of it is
there. -/
def Conveys (wire answer : List Byte) (s : Relayed) : Prop :=
  if s.ended then s.conn.wire=wire++answer else Answering wire answer s.conn

theorem relayTurn_delivers (hlib : e.build.haveLibshare=true) {s : Relayed} {w : World}
    (h : Conveys wire answer s) (hg : ∀ err, .fail err∈w.sock → err.retried=true) :
    (relayTurn e s w).ended=true ∧ Conveys wire answer (relayTurn e s w) ∨
      Conveys wire answer (relayTurn e s w) ∧
        (relayTurn e s w).conn.toAnswer ≤ s.conn.toAnswer ∧
        (w.takes=true → (relayTurn e s w).conn.toAnswer < s.conn.toAnswer) := by
  by_cases hended : s.ended=true
  · rw [relayTurn,if_pos hended]
    exact .inl ⟨hended,h⟩
  · rw [Conveys,if_neg hended] at h
    have hworld : Answering wire answer (s.inWorld w).conn :=
      ⟨h.split,h.parsed,h.drained,h.order,h.room,h.short,h.buff,h.status,h.ends⟩
    rw [relayTurn,if_neg hended]
    rcases serveTurn_advances e hlib hworld hg with ⟨hv,hall⟩|⟨hv,hnext,hle,hlt⟩
    · have hover : ((s.inWorld w).served e).ended=true := decide_eq_true hv
      refine .inl ⟨hover,?_⟩
      rw [Conveys,if_pos hover]
      exact hall
    · have hgoes : ((s.inWorld w).served e).ended=false := decide_eq_false hv
      refine .inr ⟨?_,hle,hlt⟩
      rw [Conveys,if_neg (by rw [hgoes]; decide)]
      exact hnext

/-- Whatever the socket does short of failing, no byte of a worker's answer is lost, repeated or
sent out of order, and the request does not end before all of it is sent. And it does end, once
the socket has taken something as often as the answer's length twice over. -/
theorem worker_answer_delivered (hlib : e.build.haveLibshare=true) (h : Collected c answer)
    (ws : List World) (hws : ∀ w∈ws,∀ err, .fail err∈w.sock → err.retried=true) :
    (∀ s∈Run.states (relayTurn e) (c.relayed0 false) ws,
        (s.ended=false → s.conn.wire++s.conn.unsentAnswer=c.wire++answer) ∧
          (s.ended=true → s.conn.wire=c.wire++answer)) ∧
      (2*answer.length+1 < (ws.filter World.takes).length →
        (Run.final (relayTurn e) (c.relayed0 false) ws).ended=true) := by
  have hstart : Conveys c.wire answer (c.relayed0 false) := h.answering
  constructor
  · intro s hs
    have hsteps : Run.AllSteps (relayTurn e) (fun _ w => ∀ err, .fail err∈w.sock → err.retried=true)
        (c.relayed0 false) ws := Run.allSteps_mem _ hws
    have hall : Conveys c.wire answer s := by
      apply Run.invariant (I := Conveys c.wire answer) _ hstart hsteps s hs
      intro t w ht hw
      rcases relayTurn_delivers e hlib ht hw with ⟨-,hd⟩|⟨hd,-⟩
      · exact hd
      · exact hd
    unfold Conveys at hall
    constructor
    · intro hgoes
      rw [if_neg (by rw [hgoes]; decide)] at hall
      exact hall.split
    · intro hended
      rwa [if_pos hended] at hall
  · intro hmany
    apply Run.reaches_among (I := Conveys c.wire answer) (fun s : Relayed => s.ended=true)
      (fun s => s.conn.toAnswer) _ _ (.inr hstart) hws
    · intro _
      have hfirst : (c.relayed0 false).conn.toAnswer=2*answer.length+1 := by
        have hnone : c.req.unsent=[] := by
          rw [← List.length_eq_zero_iff,length_unsent,h.sent,Nat.sub_self]
        show c.toAnswer=_
        rw [Conn.toAnswer,if_pos h.status,Conn.unsentAnswer,hnone,h.buff,List.nil_append,Option.getD_some]
      rw [hfirst]
      exact hmany
    · intro s w hs hw
      rcases relayTurn_delivers e hlib hs hw with ⟨hended,-⟩|hmore
      · exact .inl hended
      · exact .inr hmore
    · intro s w hs
      rw [relayTurn,if_pos hs]
      exact hs

end Turns

/-- An answer of three bytes through a socket that refuses once and takes two at a time. -/
def answerTurns : List World :=
  [{ sock := [.fail .again] },{ sock := [.done 2] },{ sock := [.done 2] },{ sock := [.done 2] },
    { sock := [.done 2] },{ sock := [.done 2] },{ sock := [.done 2] },{ sock := [.done 2] },
    { sock := [.done 2] }]

theorem worker_answer_delivered_three :
    (Run.final (relayTurn { build := { haveLibshare := true } })
      ((exec (cgiWorkResp 0 [65,66,67]) {}).relayed0 false) answerTurns).conn.wire=[65,66,67] := by
  have hall := worker_answer_delivered { build := { haveLibshare := true } } rfl
    (cgiWorkResp_collected (c := {}) (by decide) rfl rfl [65,66,67]) answerTurns
    (by simp [answerTurns,Errno.retried])
  have hended := hall.2 (by decide)
  exact (hall.1 _ (Run.final_mem_states _ answerTurns)).2 hended

end Crotalus
