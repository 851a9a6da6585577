import Crotalus.Spec.Reply
import Crotalus.Spec.Response

namespace Crotalus

open Stateful

/-! How much room a list of pieces takes, and when none of its writers fails. -/

/-- The writer that a piece is for, with its result. -/
def writer : Piece → Srv Int
  | .raw msg => reqWrite msg
  | .http msg => reqWriteEscapeHttp msg
  | .html msg => reqWriteEscapeHtml msg
  | .rawAt off => reqWriteAt off
  | .httpAt off => reqWriteEscapeAt escapeHttp 3 off
  | .htmlAt off => reqWriteEscapeAt escapeHtml 6 off

theorem exec_put (p : Piece) (c : Conn) : exec (put p) c=exec (writer p) c := by
  cases p <;> rfl

/-- No writer of the list reports an error. -/
def NoneFails : List Piece → Conn → Prop
  | [],_ => True
  | p::ps,c => value (writer p) c≠-1 ∧ NoneFails ps (exec (put p) c)

/-- The bytes of a piece whose text lies outside the buffer. -/
def Piece.bytes : Piece → Text
  | .raw msg => msg
  | .http msg => msg.flatMap escapeHttp
  | .html msg => msg.flatMap escapeHtml
  | _ => []

def pieceBytes (ps : List Piece) : Text := ps.flatMap Piece.bytes

/-- The bytes that follow as they are. -/
def rawRoom : List Piece → Nat
  | .raw msg::_ => msg.length
  | _ => 0

/-- Behind an escaped piece come as many bytes as its writer keeps free. -/
def Cushioned : List Piece → Prop
  | [] => True
  | .raw _::ps => Cushioned ps
  | .http _::ps => 2 ≤ rawRoom ps ∧ Cushioned ps
  | .html _::ps => 5 ≤ rawRoom ps ∧ Cushioned ps
  | _ => False

section Escape

variable {esc : Byte → Text} {guard : Nat}

theorem escapeLoop_ended {left : Nat} {msg : Text}
    (h : (escapeLoop esc guard left msg).2=true) :
    (escapeLoop esc guard left msg).1=msg.flatMap esc := by
  induction msg generalizing left with
  | nil => rfl
  | cons b msg ih =>
    rw [escapeLoop] at h ⊢
    split at h
    · cases h
    · rename_i hroom
      rw [if_neg hroom]
      exact congrArg (esc b ++ ·) (ih h)

/-- The loop comes to the end when what it keeps free is there at the last character. -/
theorem escapeLoop_fits (hone : ∀ b,1 ≤ (esc b).length) {left : Nat} {msg : Text}
    (h : (msg.flatMap esc).length+(guard-1) ≤ left) :
    (escapeLoop esc guard left msg).2=true := by
  induction msg generalizing left with
  | nil => rfl
  | cons b msg ih =>
    rw [List.flatMap_cons,List.length_append] at h
    have hb := hone b
    rw [escapeLoop,if_neg (by omega)]
    exact ih (by omega)

theorem escapeHttp_length (b : Byte) : 1 ≤ (escapeHttp b).length := by
  unfold escapeHttp
  split
  · exact Nat.le_add_left 1 2
  · exact Nat.le_refl 1

theorem escapeHtml_length (b : Byte) : 1 ≤ (escapeHtml b).length := by
  unfold escapeHtml
  split_ifs
  · decide
  · decide
  · decide
  · decide
  · exact Nat.le_refl 1

/-- What the escaping writer does, and what it returns. -/
theorem reqWriteEscape_ended {c : Conn} {msg : Text}
    (h : (escapeLoop esc guard (bufferSize-c.req.bufferEnd) msg).2=true) :
    value (reqWriteEscape esc guard msg) c≠-1 ∧
      exec (reqWriteEscape esc guard msg) c=c.buffers (msg.flatMap esc) := by
  have hout := escapeLoop_ended h
  simp only [reqWriteEscape,value_bind,exec_bind,value_getReq,exec_getReq,h,if_true,hout]
  refine ⟨?_,rfl⟩
  rw [value_pure]
  omega

theorem reqWriteEscape_fails {c : Conn} {msg : Text}
    (h : (escapeLoop esc guard (bufferSize-c.req.bufferEnd) msg).2=false) :
    value (reqWriteEscape esc guard msg) c=-1 := by
  simp only [reqWriteEscape,value_bind,value_getReq,exec_getReq,h]
  rfl

end Escape

theorem reqWrite_fits {c : Conn} {msg : Text} (hs : c.req.status.over=false) :
    value (reqWrite msg) c≠-1 ↔ c.req.bufferEnd+msg.length ≤ bufferSize ∨ msg=[] := by
  by_cases hm : msg=[]
  · subst hm
    refine iff_of_true ?_ (.inr rfl)
    simp only [reqWrite,value_bind,value_getReq,exec_getReq,List.length_nil,true_or,if_true,
      value_pure]
    omega
  · have hlen : msg.length≠0 := fun h => hm (List.length_eq_zero_iff.mp h)
    simp only [reqWrite,value_bind,value_getReq,exec_getReq,hlen,hs,Bool.false_eq_true,
      or_self,if_false,hm,or_false]
    by_cases hfit : c.req.bufferEnd+msg.length ≤ bufferSize
    · rw [if_neg (Nat.not_lt.mpr hfit)]
      refine iff_of_true ?_ hfit
      simp only [value_bind,value_pure]
      omega
    · rw [if_pos (Nat.lt_of_not_le hfit)]
      exact iff_of_false (fun h => h rfl) hfit

/-- A piece that is written adds its bytes. -/
def PutFits (p : Piece) (rest : Nat) (c : Conn) : Prop :=
  (value (writer p) c≠-1 → exec (put p) c=c.buffers p.bytes ∧
    c.req.bufferEnd+p.bytes.length ≤ bufferSize) ∧
  (c.req.bufferEnd+p.bytes.length+rest ≤ bufferSize → value (writer p) c≠-1)

/-- One escaped piece, with bytes behind it that fill what its writer keeps free. -/
theorem escaped_fits {esc : Byte → Text} {guard rest : Nat} (hone : ∀ b,1 ≤ (esc b).length)
    (hguard : Guards esc guard) (hrest : guard-1 ≤ rest) (c : Conn) (msg : Text)
    (hc : c.req.bufferEnd ≤ bufferSize) :
    (value (reqWriteEscape esc guard msg) c≠-1 →
      exec (reqWriteEscape esc guard msg) c=c.buffers (msg.flatMap esc) ∧
        c.req.bufferEnd+(msg.flatMap esc).length ≤ bufferSize) ∧
    (c.req.bufferEnd+(msg.flatMap esc).length+rest ≤ bufferSize →
      value (reqWriteEscape esc guard msg) c≠-1) := by
  constructor
  · intro hv
    cases hend : (escapeLoop esc guard (bufferSize-c.req.bufferEnd) msg).2 with
    | false => exact absurd (reqWriteEscape_fails hend) hv
    | true =>
      refine ⟨(reqWriteEscape_ended hend).2,?_⟩
      have hlen := escapeLoop_length hguard (bufferSize-c.req.bufferEnd) msg
      rw [escapeLoop_ended hend] at hlen
      omega
  · intro hfit
    exact (reqWriteEscape_ended (escapeLoop_fits hone (by omega))).1

theorem put_fits {p : Piece} {ps : List Piece} (hps : Cushioned (p::ps)) (c : Conn)
    (hs : c.req.status.over=false) (hc : c.req.bufferEnd ≤ bufferSize) :
    PutFits p (rawRoom ps) c := by
  unfold PutFits
  rw [exec_put]
  cases p with
  | raw msg =>
    change (value (reqWrite msg) c≠-1 → exec (reqWrite msg) c=c.buffers msg ∧
      c.req.bufferEnd+msg.length ≤ bufferSize) ∧
      (c.req.bufferEnd+msg.length+rawRoom ps ≤ bufferSize → value (reqWrite msg) c≠-1)
    rw [reqWrite_fits hs,exec_reqWrite msg c hs]
    refine ⟨fun hfit => ⟨if_pos hfit,?_⟩,fun hfit => .inl (by omega)⟩
    rcases hfit with hfit|rfl
    · exact hfit
    · exact hc
  | http msg => exact escaped_fits escapeHttp_length guards_http hps.1 c msg hc
  | html msg => exact escaped_fits escapeHtml_length guards_html hps.1 c msg hc
  | rawAt off => exact hps.elim
  | httpAt off => exact hps.elim
  | htmlAt off => exact hps.elim

theorem Cushioned.tail {p : Piece} {ps : List Piece} (h : Cushioned (p::ps)) : Cushioned ps := by
  cases p with
  | raw msg => exact h
  | http msg => exact h.2
  | html msg => exact h.2
  | rawAt off => exact h.elim
  | httpAt off => exact h.elim
  | htmlAt off => exact h.elim

theorem rawRoom_le (ps : List Piece) : rawRoom ps ≤ (pieceBytes ps).length := by
  match ps with
  | [] => exact Nat.zero_le _
  | .raw msg::ps =>
    rw [pieceBytes,List.flatMap_cons,List.length_append]
    exact Nat.le_add_right _ _
  | .http _::_ | .html _::_ | .rawAt _::_ | .httpAt _::_ | .htmlAt _::_ => exact Nat.zero_le _

/-- A list of pieces is written without failure exactly when there is room for its bytes. -/
theorem puts_fits (ps : List Piece) (hps : Cushioned ps) (c : Conn)
    (hs : c.req.status.over=false) (hc : c.req.bufferEnd ≤ bufferSize) :
    (NoneFails ps c ↔ c.req.bufferEnd+(pieceBytes ps).length ≤ bufferSize) ∧
      (NoneFails ps c → exec (puts ps) c=c.buffers (pieceBytes ps)) := by
  induction ps generalizing c with
  | nil =>
    refine ⟨iff_of_true trivial hc,fun _ => ?_⟩
    exact (congrArg (Conn.mk · ..) (Request.append_nil c.req)).symm
  | cons p ps ih =>
    obtain ⟨hwrites,hroom⟩ := put_fits hps c hs hc
    have hbytes : pieceBytes (p::ps)=p.bytes++pieceBytes ps := rfl
    have hrest := rawRoom_le ps
    -- behind a piece that is written the buffer has its bytes
    have hnext := fun hv : value (writer p) c≠-1 =>
      ih hps.tail (exec (put p) c) (by rw [(hwrites hv).1]; exact hs)
        (by rw [(hwrites hv).1]; exact (hwrites hv).2)
    refine ⟨⟨fun hall => ?_,fun hfit => ?_⟩,fun hall => ?_⟩
    · obtain ⟨hv,hall⟩ := hall
      have hle := (hnext hv).1.mp hall
      rw [(hwrites hv).1] at hle
      change c.req.bufferEnd+p.bytes.length+(pieceBytes ps).length ≤ bufferSize at hle
      rw [hbytes,List.length_append]
      omega
    · rw [hbytes,List.length_append] at hfit
      have hv := hroom (by omega)
      refine ⟨hv,(hnext hv).1.mpr ?_⟩
      rw [(hwrites hv).1]
      change c.req.bufferEnd+p.bytes.length+(pieceBytes ps).length ≤ bufferSize
      omega
    · obtain ⟨hv,hall⟩ := hall
      have htail := (hnext hv).2 hall
      rw [(hwrites hv).1] at htail
      rw [puts,exec_bind,(hwrites hv).1,htail,Conn.buffers_buffers,hbytes]

theorem rawRoom_append (ps qs : List Piece) : rawRoom ps ≤ rawRoom (ps++qs) := by
  cases ps with
  | nil => exact Nat.zero_le _
  | cons p ps => cases p <;> exact Nat.le_refl _

theorem Cushioned.append {ps qs : List Piece} (hp : Cushioned ps) (hq : Cushioned qs) :
    Cushioned (ps++qs) := by
  induction ps with
  | nil => exact hq
  | cons p ps ih =>
    have htail := ih hp.tail
    cases p with
    | raw msg => exact htail
    | http msg => exact ⟨Nat.le_trans hp.1 (rawRoom_append ps qs),htail⟩
    | html msg => exact ⟨Nat.le_trans hp.1 (rawRoom_append ps qs),htail⟩
    | rawAt off => exact hp.elim
    | httpAt off => exact hp.elim
    | htmlAt off => exact hp.elim

theorem cushioned_raw {ps : List Piece} (h : ps.all Piece.isRaw=true) : Cushioned ps := by
  induction ps with
  | nil => trivial
  | cons p ps ih =>
    obtain ⟨hp,hps⟩ := Bool.and_eq_true _ _ ▸ h
    cases p with
    | raw msg => exact ih hps
    | http msg => cases hp
    | html msg => cases hp
    | rawAt off => cases hp
    | httpAt off => cases hp
    | htmlAt off => cases hp

theorem pieceBytes_append (ps qs : List Piece) :
    pieceBytes (ps++qs)=pieceBytes ps++pieceBytes qs := List.flatMap_append

/-! The replies. -/

theorem statusLine_raw (e : Config) (t : Nat) (reason : String) (r : Request) :
    (statusLine e t reason r).all Piece.isRaw=true := by
  unfold statusLine printHttpHeaders printKaPhrase
  simp only [List.all_append,Bool.and_eq_true]
  refine ⟨rfl,⟨⟨⟨rfl,?_⟩,rfl⟩,?_⟩,?_⟩
  · split <;> rfl
  · split <;> rfl
  · cases r.filter <;> rfl

/-- The request while a reply is written. -/
def Request.answering (r : Request) (code : Nat) : Request :=
  { r with keepalive := .stopped, responseStatus := code }

def Conn.answering (c : Conn) (code : Nat) : Conn := { c with req := c.req.answering code }

/-- What a reply writes in front of its flush. -/
def replyPieces (e : Config) (reason : String) (fields body : Request → List Piece) (t : Nat)
    (r : Request) : List Piece :=
  (if r.httpVersion≠.http09 then statusLine e t reason r++fields r else [])++
    if r.method≠.head then body r else []

theorem puts_onlyIf (b : Prop) [Decidable b] (ps : List Piece) (c : Conn) :
    exec (onlyIf b (puts ps)) c=exec (puts (if b then ps else [])) c := by
  by_cases h : b
  · rw [onlyIf,if_pos (decide_eq_true h),if_pos h]
  · rw [onlyIf,if_neg (by simpa using h),if_neg h]
    rfl

theorem exec_reply (e : Config) (code : Nat) (reason : String) (fields body : Request → List Piece)
    (c : Conn) : exec (reply e code reason fields body) c=
      exec (reqFlush e) (exec (puts (replyPieces e reason fields body c.sys.now
        (c.req.answering code))) (c.answering code)) := by
  have hstart : exec (modReq fun r => { r with responseStatus := code }) (exec squashKa c)=
      c.answering code := rfl
  rw [reply]
  simp only [exec_bind,hstart,puts_onlyIf,replyPieces,puts_append]
  rfl

end Crotalus
