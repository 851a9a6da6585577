import Crotalus.Spec.Pieces

namespace Crotalus

open Stateful ByteMem

/-! The escaping writer on a message that lies in the buffer it writes to. -/

/-- What is written never gets in front of what is still to be read. -/
def Apart (esc : Byte → Text) (dest inp : Nat) (msg : Text) : Prop :=
  ∀ k ≤ msg.length,dest+((msg.take k).flatMap esc).length ≤ inp+k

section Apart

variable {esc : Byte → Text} {dest inp : Nat}

theorem Apart.start {msg : Text} (h : Apart esc dest inp msg) : dest ≤ inp := by
  have hstart := h 0 (Nat.zero_le _)
  rwa [List.take_zero,List.flatMap_nil,List.length_nil,Nat.add_zero,Nat.add_zero] at hstart

theorem Apart.all {msg : Text} (h : Apart esc dest inp msg) :
    dest+(msg.flatMap esc).length ≤ inp+msg.length := by
  have hall := h msg.length (Nat.le_refl _)
  rwa [List.take_length] at hall

theorem apart_nil : Apart esc dest inp [] ↔ dest ≤ inp := by
  refine ⟨Apart.start,fun h k hk => ?_⟩
  rw [List.take_nil,List.flatMap_nil]
  exact Nat.le_add_right_of_le h

theorem apart_cons {b : Byte} {msg : Text} : Apart esc dest inp (b::msg) ↔
    dest ≤ inp ∧ Apart esc (dest+(esc b).length) (inp+1) msg := by
  constructor
  · refine fun h => ⟨h.start,fun k hk => ?_⟩
    have hnext := h (k+1) (Nat.succ_le_succ hk)
    rw [List.take_succ_cons,List.flatMap_cons,List.length_append] at hnext
    omega
  · rintro ⟨hstart,h⟩ k hk
    cases k with
    | zero =>
      rw [List.take_zero]
      exact hstart
    | succ k =>
      have hnext := h k (Nat.le_of_succ_le_succ hk)
      rw [List.take_succ_cons,List.flatMap_cons,List.length_append]
      omega

end Apart

section Loop

variable {esc : Byte → Text} {guard : Nat}

/-- What the loop has written when it stops. -/
theorem escapeLoopAt_out (hg : Guards esc guard) (k : Nat) (m : Nat → Byte) (dest inp : Nat) :
    ∃ out : Text,(escapeLoopAt esc guard k m dest inp).1=store m dest out ∧
      (escapeLoopAt esc guard k m dest inp).2.1=dest+out.length ∧
      out.length ≤ bufferSize-dest ∧ ∀ b∈out,∃ a,b∈esc a := by
  induction k generalizing m dest inp with
  | zero => exact ⟨[],(store_nil m dest).symm,rfl,Nat.zero_le _,fun b hb => by cases hb⟩
  | succ k ih =>
    rw [escapeLoopAt]
    split
    · exact ⟨[],(store_nil m dest).symm,rfl,Nat.zero_le _,fun b hb => by cases hb⟩
    · split
      · exact ⟨[],(store_nil m dest).symm,rfl,Nat.zero_le _,fun b hb => by cases hb⟩
      · obtain ⟨out,hmem,hdest,hlen,hout⟩ := ih (store m dest (esc (m inp)))
          (dest+(esc (m inp)).length) (inp+1)
        have hb := hg (m inp)
        refine ⟨esc (m inp)++out,?_,?_,?_,fun b hb => ?_⟩
        · rw [hmem,store_store_append]
        · rw [hdest,List.length_append,Nat.add_assoc]
        · rw [List.length_append]
          omega
        · rcases List.mem_append.mp hb with hb|hb
          · exact ⟨_,hb⟩
          · exact hout b hb

/-- A writer that stays behind the reader writes the message. -/
theorem escapeLoopAt_apart {msg : Text} {k dest inp : Nat} {m : Nat → Byte}
    (hone : ∀ b,1 ≤ (esc b).length) (hread : slice m inp msg.length=msg)
    (hend : m (inp+msg.length)=0) (h0 : 0∉msg) (hk : msg.length ≤ k)
    (happ : Apart esc dest inp msg)
    (hroom : dest+(msg.flatMap esc).length+(guard-1) ≤ bufferSize) :
    escapeLoopAt esc guard k m dest inp=
      (store m dest (msg.flatMap esc),dest+(msg.flatMap esc).length,true) := by
  induction msg generalizing k dest inp m with
  | nil =>
    have hstop : m inp=0 := hend
    rw [List.flatMap_nil,store_nil]
    cases k with
    | zero => rw [escapeLoopAt,decide_eq_true hstop,List.length_nil,Nat.add_zero]
    | succ k => rw [escapeLoopAt,if_pos hstop,List.length_nil,Nat.add_zero]
  | cons b msg ih =>
    obtain ⟨k,rfl⟩ : ∃ k',k=k'+1 := ⟨k-1,by rw [List.length_cons] at hk; omega⟩
    obtain ⟨hb,hread⟩ := List.cons.inj hread
    obtain ⟨-,happ⟩ := apart_cons.mp happ
    have hstart := happ.start
    have hne : m inp≠0 := by
      rw [hb]
      exact fun h => h0 (h ▸ List.mem_cons_self)
    have hone := hone b
    rw [List.flatMap_cons,List.length_append] at hroom
    rw [List.length_cons,← Nat.add_assoc,Nat.add_right_comm] at hend
    rw [escapeLoopAt,if_neg hne,if_neg (by omega),hb,List.flatMap_cons,List.length_append,
      ← store_store_append,← Nat.add_assoc]
    have habove : ∀ j,inp+1 ≤ j → store m dest (esc b) j=m j :=
      fun j hj => store_above m dest j (esc b) (by omega)
    refine ih ?_ ?_ (fun h => h0 (List.mem_cons_of_mem b h)) (Nat.le_of_succ_le_succ hk) happ
      (by omega)
    · rw [slice_congr fun j hj _ => habove j hj]
      exact hread
    · rw [habove _ (by omega)]
      exact hend

/-- A writer in front of the reader feeds it for ever. -/
theorem escapeLoopAt_overtaken (hone : ∀ b,1 ≤ (esc b).length) (hesc : ∀ b,0∉esc b) {k dest inp : Nat}
    {m : Nat → Byte} (hlt : inp < dest) (hm : ∀ j,inp ≤ j → j < dest → m j≠0) :
    (escapeLoopAt esc guard k m dest inp).2.2=false := by
  induction k generalizing dest inp m with
  | zero => exact decide_eq_false (hm inp (Nat.le_refl _) hlt)
  | succ k ih =>
    rw [escapeLoopAt,if_neg (hm inp (Nat.le_refl _) hlt)]
    split
    · rfl
    · have hstep := hone (m inp)
      refine ih (by omega) fun j hj hjd => ?_
      rcases Nat.lt_or_ge j dest with hlow|hhigh
      · rw [store_below m dest j _ hlow]
        exact hm j (by omega) hlow
      · exact fun h => hesc (m inp) (h ▸ store_mem m dest j _ hhigh hjd)

/-- A writer that gets in front never comes to the end of the message. -/
theorem escapeLoopAt_overtakes (hone : ∀ b,1 ≤ (esc b).length) (hesc : ∀ b,0∉esc b)
    {msg : Text} {k dest inp : Nat} {m : Nat → Byte} (hread : slice m inp msg.length=msg)
    (h0 : 0∉msg) (hm : ∀ j,inp ≤ j → j < dest → m j≠0) (happ : ¬Apart esc dest inp msg) :
    (escapeLoopAt esc guard k m dest inp).2.2=false := by
  induction msg generalizing k dest inp m with
  | nil => exact escapeLoopAt_overtaken hone hesc (by rw [apart_nil] at happ; omega) hm
  | cons b msg ih =>
    rcases Nat.lt_or_ge inp dest with hlt|hle
    · exact escapeLoopAt_overtaken hone hesc hlt hm
    obtain ⟨hb,hread⟩ := List.cons.inj hread
    have hne : m inp≠0 := by
      rw [hb]
      exact fun h => h0 (h ▸ List.mem_cons_self)
    cases k with
    | zero => exact decide_eq_false hne
    | succ k =>
      rw [escapeLoopAt,if_neg hne,hb]
      split
      · rfl
      have hwritten : ∀ j,dest ≤ j → j < dest+(esc b).length → store m dest (esc b) j≠0 :=
        fun j hj hjd h => hesc b (h ▸ store_mem m dest j _ hj hjd)
      rcases Nat.lt_or_ge (inp+1) (dest+(esc b).length) with hlt|hge
      · exact escapeLoopAt_overtaken hone hesc hlt fun j hj => hwritten j (by omega)
      · refine ih ?_ (fun h => h0 (List.mem_cons_of_mem b h)) (fun j hj => hwritten j (by omega))
          fun h => happ (apart_cons.mpr ⟨hle,h⟩)
        rw [slice_congr fun j hj _ => store_above m dest j (esc b) (by omega)]
        exact hread

end Loop

/-! What a list of pieces writes. -/

/-- The bytes `out` have been written behind what the buffer held. -/
structure Appended (out : Text) (s s' : Conn) : Prop where
  buffer : s'.req.buffer=store s.req.buffer s.req.bufferEnd out
  stop : s'.req.bufferEnd=s.req.bufferEnd+out.length
  room : s'.req.bufferEnd ≤ bufferSize

/-- What has been written since `s`. -/
def Conn.added (s s' : Conn) : Text :=
  slice s'.req.buffer s.req.bufferEnd (s'.req.bufferEnd-s.req.bufferEnd)

section Appended

variable {out out' : Text} {s s' s'' : Conn}

theorem Appended.text (h : Appended out s s') : s.added s'=out := by
  rw [Conn.added,h.buffer,h.stop,Nat.add_sub_cancel_left,slice_store]

theorem Appended.refl (h : s.req.bufferEnd ≤ bufferSize) : Appended [] s s :=
  ⟨(store_nil _ _).symm,rfl,h⟩

theorem Appended.trans (h : Appended out s s') (h' : Appended out' s' s'') :
    Appended (out++out') s s'' := by
  refine ⟨?_,?_,h'.room⟩
  · rw [h'.buffer,h.buffer,h.stop,store_store_append]
  · rw [h'.stop,h.stop,List.length_append,Nat.add_assoc]

theorem buffers_appends (h : s.req.bufferEnd+out.length ≤ bufferSize) :
    Appended out s (s.buffers out) :=
  ⟨rfl,rfl,h⟩

theorem dead_appends (h : Appended out s s') : Appended out s (exec (setStatus .dead) s') :=
  ⟨h.buffer,h.stop,h.room⟩

theorem reqWrite_appends (msg : Text) (s : Conn) (hs : s.req.bufferEnd ≤ bufferSize) :
    ∃ out,Appended out s (exec (reqWrite msg) s) := by
  by_cases hover : s.req.status.over=true
  · rw [exec_reqWrite_over msg s hover]
    exact ⟨[],.refl hs⟩
  · rw [exec_reqWrite msg s (Bool.eq_false_iff.mpr hover)]
    split
    · rename_i hfit
      refine ⟨msg,buffers_appends ?_⟩
      rcases hfit with hfit|rfl
      · exact hfit
      · exact hs
    · exact ⟨[],dead_appends (.refl hs)⟩

theorem reqWriteEscape_appends {esc : Byte → Text} {guard : Nat} (hg : Guards esc guard) (msg : Text)
    (s : Conn) (hs : s.req.bufferEnd ≤ bufferSize) :
    ∃ out,Appended out s (exec (reqWriteEscape esc guard msg) s) := by
  have hlen := escapeLoop_length hg (bufferSize-s.req.bufferEnd) msg
  have happ : Appended (escapeLoop esc guard (bufferSize-s.req.bufferEnd) msg).1 s
      (s.buffers (escapeLoop esc guard (bufferSize-s.req.bufferEnd) msg).1) :=
    buffers_appends (by omega)
  simp only [reqWriteEscape,exec_bind,exec_getReq,value_getReq,exec_modReq,exec_ite,exec_pure]
  split
  · exact ⟨_,happ⟩
  · exact ⟨_,dead_appends happ⟩

/-- The connection when the loop has stopped. -/
def Conn.escapedAt (s : Conn) (esc : Byte → Text) (guard off : Nat) : Conn :=
  { s with req := { s.req with
      buffer := (escapeLoopAt esc guard bufferSize s.req.buffer s.req.bufferEnd off).1
      bufferEnd := (escapeLoopAt esc guard bufferSize s.req.buffer s.req.bufferEnd off).2.1 } }

theorem exec_reqWriteEscapeAt (esc : Byte → Text) (guard off : Nat) (s : Conn) :
    exec (reqWriteEscapeAt esc guard off) s=
      if (escapeLoopAt esc guard bufferSize s.req.buffer s.req.bufferEnd off).2.2 then
        s.escapedAt esc guard off else exec (setStatus .dead) (s.escapedAt esc guard off) := by
  simp only [reqWriteEscapeAt,exec_bind,exec_getReq,value_getReq,exec_ite,exec_pure]
  rfl

theorem escapedAt_appends {esc : Byte → Text} {guard : Nat} (hg : Guards esc guard) (off : Nat)
    (hs : s.req.bufferEnd ≤ bufferSize) :
    ∃ out : Text,Appended out s (s.escapedAt esc guard off) ∧ ∀ b∈out,∃ a,b∈esc a := by
  obtain ⟨out,hmem,hdest,hlen,hout⟩ :=
    escapeLoopAt_out hg bufferSize s.req.buffer s.req.bufferEnd off
  refine ⟨out,⟨hmem,hdest,?_⟩,hout⟩
  change (escapeLoopAt esc guard bufferSize s.req.buffer s.req.bufferEnd off).2.1 ≤ bufferSize
  omega

theorem reqWriteEscapeAt_appends {esc : Byte → Text} {guard : Nat} (hg : Guards esc guard) (off : Nat)
    (s : Conn) (hs : s.req.bufferEnd ≤ bufferSize) :
    ∃ out,Appended out s (exec (reqWriteEscapeAt esc guard off) s) := by
  obtain ⟨out,happ,-⟩ := escapedAt_appends hg off hs
  rw [exec_reqWriteEscapeAt]
  split
  · exact ⟨out,happ⟩
  · exact ⟨out,dead_appends happ⟩

theorem put_appends (p : Piece) (s : Conn) (hs : s.req.bufferEnd ≤ bufferSize) :
    ∃ out,Appended out s (exec (put p) s) := by
  rw [exec_put]
  cases p with
  | raw msg => exact reqWrite_appends msg s hs
  | http msg => exact reqWriteEscape_appends guards_http msg s hs
  | html msg => exact reqWriteEscape_appends guards_html msg s hs
  | rawAt off => exact reqWrite_appends (s.req.strAt off) s hs
  | httpAt off => exact reqWriteEscapeAt_appends guards_http off s hs
  | htmlAt off => exact reqWriteEscapeAt_appends guards_html off s hs

theorem puts_appends (ps : List Piece) (s : Conn) (hs : s.req.bufferEnd ≤ bufferSize) :
    ∃ out,Appended out s (exec (puts ps) s) := by
  induction ps generalizing s with
  | nil => exact ⟨[],.refl hs⟩
  | cons p ps ih =>
    obtain ⟨out,hout⟩ := put_appends p s hs
    obtain ⟨out',hout'⟩ := ih (exec (put p) s) hout.room
    exact ⟨out++out',hout.trans hout'⟩

end Appended

end Crotalus
