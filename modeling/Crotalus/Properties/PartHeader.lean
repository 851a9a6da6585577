import Crotalus.Properties.Order

namespace Crotalus

open Stateful

/-- Raw pieces fit, or the request dies of the first that does not. -/
theorem puts_raw_dead {ps : List Piece} (hraw : ps.all Piece.isRaw=true) {c : Conn}
    (hs : c.req.status.over=false) (hb : c.req.bufferEnd≤bufferSize) :
    (exec (puts ps) c).req.status=.dead ↔ bufferSize < c.req.bufferEnd+(texts ps).length := by
  induction ps generalizing c with
  | nil =>
    have hlive : c.req.status≠.dead := by
      intro h
      rw [h] at hs
      cases hs
    refine iff_of_false hlive ?_
    change ¬bufferSize < c.req.bufferEnd+0
    omega
  | cons p ps ih =>
    obtain ⟨hp,hps⟩ := by simpa using hraw
    have hps' : ps.all Piece.isRaw=true := by simpa using hps
    cases p with
    | raw msg =>
      have hput : exec (puts (.raw msg :: ps)) c=exec (puts ps) (exec (reqWrite msg) c) := rfl
      have hlen : (texts (.raw msg :: ps)).length=msg.length+(texts ps).length :=
        List.length_append
      rw [hput,hlen,exec_reqWrite msg c hs]
      by_cases hfit : c.req.bufferEnd+msg.length≤bufferSize ∨ msg=[]
      · rw [if_pos hfit]
        have hend : (c.buffers msg).req.bufferEnd=c.req.bufferEnd+msg.length := rfl
        have hle : (c.buffers msg).req.bufferEnd≤bufferSize := by
          rcases hfit with hfit|rfl
          · exact hfit
          · exact hb
        rw [ih hps' (c := c.buffers msg) hs hle,hend]
        omega
      · rw [if_neg hfit,puts_over ps hps' _ rfl]
        refine iff_of_true rfl ?_
        have hno : ¬c.req.bufferEnd+msg.length≤bufferSize := fun h => hfit (Or.inl h)
        omega
    | _ => cases hp

/-! `init_get` has written the header of a multipart response for a mapped file. -/

structure MappedParts (c : Conn) (mem : List Byte) (r0 : Range) : Prop where
  status : c.req.status=.write
  multipart : c.req.multipart
  range : c.req.range=r0
  more : c.req.ranges.tail≠[]
  ordered : r0.start ≤ r0.stop
  small : r0.stop < maxFileMmap
  mapped : c.req.dataMem=some mem
  covered : r0.stop < mem.length
  buffered : c.req.bufferEnd≤bufferSize
  quiet : c.busError=false

/-- The room behind the header takes the whole range, and is large enough to be used. -/
def CopiesWhole (c : Conn) (r0 : Range) : Prop :=
  256<bufferSize-c.req.bufferEnd ∧ r0.stop+1-r0.start≤bufferSize-c.req.bufferEnd

/-- The request once its first range is done. -/
def Request.nextPart (r : Request) : Request := { r with ranges := r.ranges.tail }

/-- The part header of the next range. -/
def partText (e : Config) (r : Request) : Text :=
  texts (printPartialContentContinue e r.nextPart ++ [nl])

/-- When `init_get` copies the whole range, the request survives the part header. -/
def PartHeaderFits (e : Config) (c : Conn) (r0 : Range) : Prop :=
  CopiesWhole c r0 → (exec (fillBuffer e) c).req.status≠.dead

/-- A part header depends on four fields of the request. -/
theorem partPieces_congr (e : Config) {r q : Request} (hn : q.numranges=r.numranges)
    (hu : q.requestUri=r.requestUri) (hr : q.ranges=r.ranges) (hf : q.filesize=r.filesize) :
    printPartialContentContinue e q=printPartialContentContinue e r := by
  simp only [printPartialContentContinue,printContentType,printContentRange,Request.range,hn,hu,hr,
    hf]

section Copy

variable (e : Config) {c : Conn} {mem : List Byte} {r0 : Range}

/-- The connection with the range in its buffer. -/
def copied (mem : List Byte) (r0 : Range) (c : Conn) : Conn :=
  exec (do
    mark (.fileAccess r0.start (r0.stop+1-r0.start))
    let _ ← sigbus
    modReq fun r => ((r.append ((mem.drop r.range.start).take (r0.stop+1-r0.start))).counted
      (r0.stop+1-r0.start)).moveStart (r0.stop+1-r0.start)) c

/-- The copy of a whole range goes on with `complete_response`. -/
theorem fillBuffer_copies (h : MappedParts c mem r0) (hw : CopiesWhole c r0) :
    exec (fillBuffer e) c=exec (completeResponse e) (copied mem r0 c) := by
  obtain ⟨hroom,hfit⟩ := hw
  have hsmall := h.small
  have hordered := h.ordered
  have hwant : u32 (u64 (r0.stop+2^64-r0.start+1))=r0.stop+1-r0.start := by
    unfold maxFileMmap at hsmall
    rw [u64_length ⟨hordered,by omega⟩,u32,Nat.mod_eq_of_lt (by omega)]
  have hfree : u32 (bufferSize+2^32-c.req.bufferEnd)=bufferSize-c.req.bufferEnd := by
    have hle := h.buffered
    unfold bufferSize at hle ⊢
    unfold u32
    omega
  have hmin : min (bufferSize-c.req.bufferEnd) (r0.stop+1-r0.start)=r0.stop+1-r0.start :=
    Nat.min_eq_right hfit
  have hnobus : value sigbus (exec (mark (.fileAccess r0.start (r0.stop+1-r0.start))) c)=false := by
    have hval : value sigbus (exec (mark (.fileAccess r0.start (r0.stop+1-r0.start))) c)=
        c.sys.sigbus.headD false := rfl
    have hquiet := h.quiet
    rw [hval]
    rw [Conn.busError,h.mapped,hfree] at hquiet
    simpa only [Option.isSome_some,Bool.true_and,gt_iff_lt,hroom,decide_true] using hquiet
  have hnot : ¬bufferSize-c.req.bufferEnd≤256 := Nat.not_le_of_lt hroom
  simp only [fillBuffer,exec_bind,value_getReq,exec_getReq,h.mapped,h.range,hfree,hwant,hmin,
    if_neg hnot,hnobus,Bool.false_eq_true,if_false,if_true]
  rfl

theorem copied_bufferEnd (h : MappedParts c mem r0) :
    (copied mem r0 c).req.bufferEnd=c.req.bufferEnd+(r0.stop+1-r0.start) := by
  have hcovered := h.covered
  have hlen : ((mem.drop r0.start).take (r0.stop+1-r0.start)).length=r0.stop+1-r0.start := by
    rw [List.length_take,List.length_drop]
    omega
  change c.req.bufferEnd+((mem.drop c.req.range.start).take (r0.stop+1-r0.start)).length=_
  rw [h.range,hlen]

/-- The part header fits exactly when the header, the range and it do together. -/
theorem partHeader_fits (h : MappedParts c mem r0) :
    PartHeaderFits e c r0 ↔
      (CopiesWhole c r0 →
        c.req.bufferEnd+(r0.stop+1-r0.start)+(partText e c.req).length≤bufferSize) := by
  unfold PartHeaderFits
  refine forall_congr' fun hw => ?_
  have hend := copied_bufferEnd h
  have hmulti : (copied mem r0 c).req.multipart := h.multipart
  have hmore : (copied mem r0 c).req.ranges.tail≠[] := h.more
  have hlive : (copied mem r0 c).popRange.req.status.over=false := by
    have hstatus : (copied mem r0 c).popRange.req.status=.write := h.status
    rw [hstatus]
    rfl
  have hroom : (copied mem r0 c).popRange.req.bufferEnd≤bufferSize := by
    change (copied mem r0 c).req.bufferEnd≤bufferSize
    have hfit := hw.2
    have hle := h.buffered
    omega
  have htext : texts (printPartialContentContinue e (copied mem r0 c).popRange.req ++ [nl])=
      partText e c.req := by
    rw [partText,partPieces_congr e (q := (copied mem r0 c).popRange.req) (r := c.req.nextPart)
      rfl rfl rfl rfl]
  rw [fillBuffer_copies e h hw,(completeResponse_next e hmulti hmore).2,ne_eq,
    puts_raw_dead (raw_partHeader e _) hlive hroom,htext]
  change ¬bufferSize<(copied mem r0 c).req.bufferEnd+_ ↔ _
  rw [hend]
  omega

end Copy

/-- Two ranges of a file of 4096 bytes. -/
def wideFile : File := ⟨.reg, 4096, 0, 1, 1, []⟩

def wideParts (stop : Nat) : Conn where
  req := {
    status := .write, method := .get, httpVersion := .http11, requestUri := str "/f"
    ranges := [⟨0, stop⟩, ⟨4000, 4009⟩], numranges := 2, fd := 5, kacount := 10 }
  sys := { mmap := true }

def wideHeaded (stop : Nat) : Conn := headed {} 7 wideFile ((wideParts stop).opened wideFile)

theorem wideFile_length : wideFile.mapped.length=4096 := by
  rw [File.mapped,List.length_append,List.length_replicate]
  rfl

/-- The header and the first range leave 63 bytes. -/
theorem partHeader_dead :
    MappedParts (wideHeaded 3700) wideFile.mapped ⟨0, 3700⟩ ∧
      (partText {} (wideHeaded 3700).req).length≤256 ∧
      ¬PartHeaderFits {} (wideHeaded 3700) ⟨0, 3700⟩ := by
  obtain ⟨hstatus,hmulti,hrange,hmore,hbuffered,hquiet,hroom,hfit,hlen,hdead⟩ :
      (wideHeaded 3700).req.status=.write ∧ (wideHeaded 3700).req.multipart ∧
      (wideHeaded 3700).req.range=⟨0, 3700⟩ ∧ (wideHeaded 3700).req.ranges.tail≠[] ∧
      (wideHeaded 3700).req.bufferEnd≤bufferSize ∧ (wideHeaded 3700).busError=false ∧
      256<bufferSize-(wideHeaded 3700).req.bufferEnd ∧
      3700+1-0≤bufferSize-(wideHeaded 3700).req.bufferEnd ∧
      (partText {} (wideHeaded 3700).req).length≤256 ∧
      (exec (fillBuffer {}) (wideHeaded 3700)).req.status=.dead := by
    decide +kernel
  refine ⟨⟨hstatus,hmulti,hrange,hmore,by decide,by decide,rfl,?_,hbuffered,hquiet⟩,hlen,
    fun h => h ⟨hroom,hfit⟩ hdead⟩
  rw [wideFile_length]
  decide

theorem partHeader_fits_small : PartHeaderFits {} (wideHeaded 99) ⟨0, 99⟩ := by
  obtain ⟨hstatus,hmulti,hrange,hmore,hbuffered,hquiet,hlen⟩ :
      (wideHeaded 99).req.status=.write ∧ (wideHeaded 99).req.multipart ∧
      (wideHeaded 99).req.range=⟨0, 99⟩ ∧ (wideHeaded 99).req.ranges.tail≠[] ∧
      (wideHeaded 99).req.bufferEnd≤bufferSize ∧ (wideHeaded 99).busError=false ∧
      (wideHeaded 99).req.bufferEnd+(99+1-0)+(partText {} (wideHeaded 99).req).length≤bufferSize := by
    decide +kernel
  have hparts : MappedParts (wideHeaded 99) wideFile.mapped ⟨0, 99⟩ := by
    refine ⟨hstatus,hmulti,hrange,hmore,by decide,by decide,rfl,?_,hbuffered,hquiet⟩
    rw [wideFile_length]
    decide
  exact (partHeader_fits {} hparts).mpr fun _ => hlen

end Crotalus
