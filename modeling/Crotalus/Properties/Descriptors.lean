import Crotalus.Properties.ParentIndex
import Crotalus.Server.Files
import Crotalus.Spec.Cgi
import Crotalus.Spec.Reply
import Crotalus.Spec.Still

namespace Crotalus

open Stateful Ledger

/-! The descriptors that `init_get` opens. -/

/-! Without the history the code is `init_get`. -/

/-- `m'` does with the connection what `m` does. -/
def Mirrors {α : Type} (m' : Files α) (m : Srv α) : Prop :=
  ∀ s,(exec m' s).conn=exec m s.conn ∧ value m' s=value m s.conn

section Mirrors

variable {α β : Type}

theorem Mirrors.of (m : Srv α) : Mirrors (ofSrv m) m := fun _ => ⟨rfl,rfl⟩

theorem Mirrors.pure (a : α) : Mirrors (Pure.pure a) (Pure.pure a) := fun _ => ⟨rfl,rfl⟩

theorem Mirrors.bind {m' : Files α} {m : Srv α} {f' : α → Files β} {f : α → Srv β}
    (hm : Mirrors m' m) (hf : ∀ a,Mirrors (f' a) (f a)) : Mirrors (m' >>= f') (m >>= f) := by
  intro s
  obtain ⟨hconn,hvalue⟩ := hm s
  rw [exec_bind,exec_bind,value_bind,value_bind,← hconn,← hvalue]
  exact hf _ _

theorem Mirrors.ite {p : Prop} [Decidable p] {m' n' : Files α} {m n : Srv α}
    (hm : Mirrors m' m) (hn : Mirrors n' n) :
    Mirrors (if p then m' else n') (if p then m else n) := by
  split
  · exact hm
  · exact hn

/-- The history is not part of the connection. -/
theorem Mirrors.note {fd : Nat} {m' : Files α} {m : Srv α} (h : Mirrors m' m) :
    Mirrors (noteOpen fd >>= fun _ => m') m ∧ Mirrors (noteClose fd >>= fun _ => m') m :=
  ⟨fun _ => h _,fun _ => h _⟩

theorem Mirrors.read {m' : FileConn → Files α} {m : Conn → Srv α}
    (h : ∀ s,Mirrors (m' s) (m s.conn)) : Mirrors (get >>= m') (get >>= m) := fun s => h s s

end Mirrors

section Runs

variable (e : Config)

theorem openPathFiles_mirrors : Mirrors (openPathFiles e) (openPath e) := by
  intro s
  simp only [openPathFiles,exec_bind,value_bind,(Mirrors.of (openPath e) s).2]
  cases h : value (openPath e) s.conn with
  | ok v => exact ⟨rfl,rfl⟩
  | error err => exact ⟨rfl,rfl⟩

theorem mapFileFiles_mirrors (fd : Nat) (f : File) :
    Mirrors (mapFileFiles fd f) (mapFile fd f) := by
  intro s
  change (exec (if _ then pure () else noteClose fd) _).conn=_ ∧ _
  split
  · exact ⟨rfl,rfl⟩
  · exact ⟨rfl,rfl⟩

theorem serveFileFiles_mirrors (fd : Nat) (f : File) :
    Mirrors (serveFileFiles e fd f) (serveFile e fd f) :=
  .bind (.of _) fun _ => .bind (mapFileFiles_mirrors fd f) fun _ => .of _

theorem thenClose_mirrors (fd : Nat) (m : Srv Int) : Mirrors (thenClose fd m) m :=
  fun _ => ⟨rfl,rfl⟩

theorem initGetFileFiles_mirrors (fd : Nat) (f : File) :
    Mirrors (initGetFileFiles e fd f) (initGetFile e fd f) := by
  refine .bind (.of _) fun r => .ite (thenClose_mirrors _ _) <| .ite (thenClose_mirrors _ _) ?_
  refine .bind (.of _) fun _ => .ite (thenClose_mirrors _ _) <| .ite ?_ (serveFileFiles_mirrors e fd f)
  exact .bind (.of _) fun ok => .ite (serveFileFiles_mirrors e fd f) (thenClose_mirrors _ _)

theorem makeCachedirFiles_mirrors (dir : File) :
    Mirrors (makeCachedirFiles e dir) (makeCachedirFile e dir) := by
  refine .bind (.of _) fun made => .ite (.read fun s => ?_) (.pure _)
  cases s.conn.sys.reopen with
  | ok v => exact (Mirrors.note (.of _)).1
  | error err => exact .of _

theorem getCachedirFiles_mirrors (cachedir : Text) (dir : File) :
    Mirrors (getCachedirFiles e cachedir dir) (getCachedirFile e cachedir dir) := by
  refine Mirrors.read fun s => ?_
  dsimp only
  cases s.conn.sys.openFile (cachedir++str "/dir."++decimal dir.dev++[46]++decimal dir.ino) with
  | ok v =>
    refine .ite (Mirrors.note (.of _)).1 ?_
    exact (Mirrors.note (Mirrors.note (makeCachedirFiles_mirrors e dir)).2).1
  | error err => exact makeCachedirFiles_mirrors e dir

/-- What comes behind only writes the history. -/
theorem Mirrors.extend {α : Type} {m' : Files α} {m : Srv α} {f : α → FileConn → Files α}
    (hm : Mirrors m' m) (hf : ∀ a s,Mirrors (f a s) (Pure.pure a)) :
    Mirrors (m' >>= fun a => get >>= f a) m :=
  (hm.bind fun a => Mirrors.read (m := fun _ => Pure.pure a) fun s => hf a s :
    Mirrors _ (m >>= fun a => get >>= fun _ => Pure.pure a))

theorem runDirmakerFiles_mirrors : Mirrors (runDirmakerFiles e) (runDirmaker e) := by
  refine (Mirrors.of _).extend fun ret s => ?_
  dsimp only
  split
  · exact (Mirrors.note (.pure ret)).1
  · exact .pure ret

theorem listDirectoryFiles_mirrors (dir : File) :
    Mirrors (listDirectoryFiles e dir) (listDirectory e dir) := by
  refine .ite (.bind (runDirmakerFiles_mirrors e) fun _ => .pure _) ?_
  cases e.cachedir with
  | some cachedir => exact getCachedirFiles_mirrors e _ dir
  | none => exact .of _

theorem getDirFiles_mirrors (dir : File) : Mirrors (getDirFiles e dir) (getDir e dir) := by
  refine Mirrors.read fun s => ?_
  dsimp only
  cases e.dirindex with
  | none => exact listDirectoryFiles_mirrors e dir
  | some index =>
    refine Mirrors.ite (.of _) ?_
    cases s.conn.sys.openFile (s.conn.req.pathname.getD []++index) with
    | ok v => exact (Mirrors.note (.bind (.of _) fun _ => .pure _)).1
    | error err =>
      cases err with
      | acces => exact .of _
      | noEnt => exact listDirectoryFiles_mirrors e dir
      | _ => exact .of _

theorem initGetDirFiles_mirrors (fd : Nat) (dir : File) :
    Mirrors (initGetDirFiles e fd dir) (initGetDir e dir) := by
  refine (Mirrors.note (.bind (.of _) fun r => .ite (.of _) ?_)).2
  refine .bind (getDirFiles_mirrors e dir) fun ret => ?_
  exact .ite (.pure _) (.ite (.pure _) (initGetFileFiles_mirrors e _ _))

theorem initGetFiles_mirrors : Mirrors (initGetFiles e) (initGet e) := by
  refine .bind (.of _) fun _ => .bind (openPathFiles_mirrors e) fun res => ?_
  cases res with
  | error err => exact .of _
  | ok v =>
    obtain ⟨fd,f⟩ := v
    have hrest : Mirrors (if f.kind=.dir then initGetDirFiles e fd f else initGetFileFiles e fd f)
        (if f.kind=.dir then initGetDir e f else initGetFile e fd f) :=
      .ite (initGetDirFiles_mirrors e fd f) (initGetFileFiles_mirrors e fd f)
    exact .bind (.of _) fun r => .ite (.of _) hrest

end Runs

/-! What the parts of the code leave in `data_fd`. -/

def KeepsFd {α : Type} (m : Srv α) : Prop := Keeps (fun c : Conn => c.req.dataFd) m

theorem Replies.keepsFd {α : Type} {m : Srv α} (h : Replies m) : KeepsFd m := by
  intro c
  have haside := congrArg Request.dataFd (h c).aside
  exact haside

section Kept

variable {α β : Type} (e : Config)

theorem KeepsFd.bind {m : Srv α} {f : α → Srv β} (hm : KeepsFd m) (hf : ∀ a,KeepsFd (f a)) :
    KeepsFd (m >>= f) := Keeps.bind hm hf

theorem KeepsFd.pure (a : α) : KeepsFd (Pure.pure a : Srv α) := fun _ => rfl

theorem KeepsFd.ite {p : Prop} [Decidable p] {m n : Srv α} (hm : KeepsFd m) (hn : KeepsFd n) :
    KeepsFd (if p then m else n) := Keeps.ite hm hn

theorem KeepsFd.modReq {f : Request → Request} (h : ∀ r,(f r).dataFd=r.dataFd) :
    KeepsFd (modReq f) := fun c => h c.req

theorem reply_keepsFd (code : Nat) (reason : String) (fields body : Request → List Piece) :
    KeepsFd (reply e code reason fields body) := (reply_replies e code reason fields body).keepsFd

theorem completeResponse_keepsFd : KeepsFd (completeResponse e) := by
  have hputs : ∀ ps,KeepsFd (puts ps) := fun ps => (puts_replies ps).keepsFd
  have hstatus : ∀ st,KeepsFd (setStatus st) := fun _ _ => rfl
  refine .bind (fun _ => rfl) fun _ => .bind (.modReq fun _ => rfl) fun _ => ?_
  refine .bind (fun _ => rfl) fun r => .ite (.ite (.bind (hputs _) fun _ => .pure _) ?_) ?_
  · refine .bind (hputs _) fun _ => .bind (hstatus _) fun _ => ?_
    exact .bind (reqFlush_replies e).keepsFd fun _ => .pure _
  · exact .bind (hstatus _) fun _ => .pure _

theorem fillBuffer_keepsFd : KeepsFd (fillBuffer e) := by
  refine .bind (fun _ => rfl) fun r => ?_
  dsimp only
  cases r.dataMem with
  | none => exact .pure _
  | some mem =>
    refine KeepsFd.ite (.pure _) ?_
    refine .bind (fun _ => rfl) fun _ => .bind (fun _ => rfl) fun bus => .ite ?_ ?_
    · exact .bind (.modReq fun _ => rfl) fun _ => .bind (reply_keepsFd e _ _ _ _) fun _ => .pure _
    · exact .bind (.modReq fun _ => rfl) fun _ => .ite (completeResponse_keepsFd e) (.pure _)

theorem serveMapped_keepsFd : KeepsFd (serveMapped e) := by
  refine .bind (serveHeader_replies e).keepsFd fun ok => .ite ?_ (.pure _)
  exact .bind (fun _ => rfl) fun r => .ite (completeResponse_keepsFd e) (fillBuffer_keepsFd e)

theorem serveEmpty_keepsFd : KeepsFd (serveEmpty e) := by
  have hnone : KeepsFd (sendRNoContent e) := by
    refine Replies.keepsFd (respond_replies fun t r => ?_)
    split
    · exact Replies.pure _
    · exact .bind (puts_replies _) fun _ => .onlyIf (puts_replies _)
  refine .bind (fun _ => rfl) fun r => .ite ?_ (.bind hnone fun _ => .pure _)
  exact .bind (sendRRequestOk_replies e).keepsFd fun _ => .pure _

theorem sendRNotModified_keepsFd : KeepsFd (sendRNotModified e) :=
  .bind (fun _ => rfl) fun _ => Replies.keepsFd <| respond_replies fun _ _ =>
    .bind (puts_replies _) fun _ => .bind reqFlushRaw_idles.replies fun _ => .pure _

theorem redirectDir_keepsFd : KeepsFd (redirectDir e) := by
  have hport : KeepsFd (portOk e) := .ite (fun _ => rfl) (.pure _)
  refine .bind (fun _ => rfl) fun r => .bind hport fun ok => ?_
  refine .ite (.bind (reply_keepsFd e _ _ _ _) fun _ => .pure _) <| .ite ?_ ?_
  · exact .bind (reply_keepsFd e _ _ _ _) fun _ => .pure _
  · exact .bind (reply_keepsFd e _ _ _ _) fun _ => .pure _

theorem indexDirectory_keepsFd : KeepsFd (indexDirectory e) := by
  refine .bind (fun _ => rfl) fun c => ?_
  cases c.sys.indexDirectory with
  | chdirFailed err =>
    refine .ite ?_ ?_
    · exact .bind (reply_keepsFd e _ _ _ _) fun _ => .pure _
    · exact .bind (reply_keepsFd e _ _ _ _) fun _ => .pure _
  | opendirFailed => exact .bind (reply_keepsFd e _ _ _ _) fun _ => .pure _
  | fopenFailed => exact .bind (reply_keepsFd e _ _ _ _) fun _ => .pure _
  | made bytes => exact .bind (fun _ => rfl) fun _ => .pure _

end Kept

/-! What is held from exit to exit. -/

/-- The descriptors that are open, none of them as `data_fd`. -/
def Holding (fds : List Nat) (s : FileConn) : Prop :=
  held [] s.history=some fds ∧ s.conn.req.dataFd=0

/-- All that was opened is closed but for `data_fd`, and that is open if it is set. -/
def Conserved (s : FileConn) : Prop :=
  held [] s.history=some (if s.conn.req.dataFd=0 then [] else [s.conn.req.dataFd])

theorem Holding.conserved {s : FileConn} (h : Holding [] s) : Conserved s := by
  rw [Conserved,if_pos h.2]
  exact h.1

/-- Then the end of the request closes the last one. -/
theorem Conserved.freed {s : FileConn} (h : Conserved s) : held [] s.freed=some [] := by
  unfold Conserved at h
  unfold FileConn.freed
  by_cases hfd : s.conn.req.dataFd=0
  · rw [if_pos hfd] at h
    rw [if_neg (not_not_intro hfd),List.append_nil]
    exact h
  · rw [if_neg hfd] at h
    rw [if_pos hfd]
    exact held_closed h

section Exits

variable {α : Type} {e : Config} {fd : Nat} {fds : List Nat}

theorem ofSrv_holding {m : Srv α} (hm : KeepsFd m) :
    Triple (Holding fds) (ofSrv m) fun _ => Holding fds :=
  fun s h => ⟨h.1,(hm s.conn).trans h.2⟩

theorem ofSrv_conserved {m : Srv α} (hm : KeepsFd m) :
    Triple Conserved (ofSrv m) fun _ => Conserved := by
  intro s h
  have hfd : (exec m s.conn).req.dataFd=s.conn.req.dataFd := hm s.conn
  change held [] s.history=some (if (exec m s.conn).req.dataFd=0 then [] else
    [(exec m s.conn).req.dataFd])
  rw [hfd]
  exact h

theorem noteOpen_holding : Triple (Holding fds) (noteOpen fd) fun _ => Holding (fd::fds) :=
  fun _ h => ⟨held_opened h.1 fd,h.2⟩

theorem noteClose_holding : Triple (Holding (fd::fds)) (noteClose fd) fun _ => Holding fds :=
  fun _ h => ⟨held_closed h.1,h.2⟩

theorem thenClose_conserves {m : Srv Int} (hm : KeepsFd m) :
    Triple (Holding [fd]) (thenClose fd m) fun _ => Conserved :=
  .seq (ofSrv_holding hm) fun _ => .seq noteClose_holding fun _ => .pure fun _ h => h.conserved

theorem mapFileFiles_conserves (hfd : fd≠0) (f : File) :
    Triple (Holding [fd]) (mapFileFiles fd f) fun _ => Conserved := by
  intro s h
  by_cases hbig : s.conn.req.filesize > maxFileMmap ∨ !s.conn.sys.mmap
  · have hexec : exec (mapFileFiles fd f) s={ s with conn := exec (mapFile fd f) s.conn } := by
      change exec (if s.conn.req.filesize > maxFileMmap ∨ !s.conn.sys.mmap then pure () else
        noteClose fd : Files Unit) _=_
      rw [if_pos hbig]
      rfl
    have hdata : (exec (mapFile fd f) s.conn).req.dataFd=fd := by
      change (exec (if s.conn.req.filesize > maxFileMmap ∨ !s.conn.sys.mmap then _ else _ :
        Srv Unit) s.conn).req.dataFd=fd
      rw [if_pos hbig]
      rfl
    rw [hexec,Conserved]
    change held [] s.history=some (if (exec (mapFile fd f) s.conn).req.dataFd=0 then [] else
      [(exec (mapFile fd f) s.conn).req.dataFd])
    rw [hdata,if_neg hfd]
    exact h.1
  · have hexec : exec (mapFileFiles fd f) s=
        exec (noteClose fd) { s with conn := exec (mapFile fd f) s.conn } := by
      change exec (if s.conn.req.filesize > maxFileMmap ∨ !s.conn.sys.mmap then pure () else
        noteClose fd : Files Unit) _=_
      rw [if_neg hbig]
      rfl
    have hdata : (exec (mapFile fd f) s.conn).req.dataFd=s.conn.req.dataFd := by
      change (exec (if s.conn.req.filesize > maxFileMmap ∨ !s.conn.sys.mmap then _ else _ :
        Srv Unit) s.conn).req.dataFd=_
      rw [if_neg hbig]
      rfl
    have hstart : Holding [fd] { s with conn := exec (mapFile fd f) s.conn } :=
      ⟨h.1,hdata.trans h.2⟩
    rw [hexec]
    exact (noteClose_holding _ hstart).conserved

theorem serveFileFiles_conserves (hfd : fd≠0) (f : File) :
    Triple (Holding [fd]) (serveFileFiles e fd f) fun _ => Conserved := by
  have hmark : KeepsFd (mark .serveFile) := fun _ => rfl
  refine .seq (ofSrv_holding hmark) fun _ => .seq (mapFileFiles_conserves hfd f) fun _ => ?_
  exact ofSrv_conserved (serveMapped_keepsFd e)

theorem initGetFileFiles_conserves (hfd : fd≠0) (f : File) :
    Triple (Holding [fd]) (initGetFileFiles e fd f) fun _ => Conserved := by
  have hget : KeepsFd getReq := fun _ => rfl
  refine .seq (ofSrv_holding hget) fun r => .ite (fun _ => thenClose_conserves ?_) fun _ => ?_
  · exact .bind (reply_keepsFd e _ _ _ _) fun _ => .pure _
  refine .ite (fun _ => thenClose_conserves ?_) fun _ => ?_
  · exact .bind (sendRNotModified_keepsFd e) fun _ => .pure _
  refine .seq (ofSrv_holding (.modReq fun _ => rfl)) fun _ => ?_
  refine .ite (fun _ => thenClose_conserves (serveEmpty_keepsFd e)) fun _ => ?_
  refine .ite (fun _ => ?_) fun _ => serveFileFiles_conserves hfd f
  refine .seq (ofSrv_holding (rangesFixup_replies e).keepsFd) fun ok => ?_
  exact .ite (fun _ => serveFileFiles_conserves hfd f) fun _ => thenClose_conserves (.pure _)

end Exits

/-! Directories. -/

/-- `open` gives a request neither of the first two descriptors: the server's start has tied 0
to `/dev/null`, and 1 is the standard output or what the server has opened in its place. The
library of the workers reports errors by negative numbers. -/
structure Descriptive (w : World) : Prop where
  openFile : ∀ path fd f,w.openFile path=.ok (fd,f) → 1 < fd
  reopen : ∀ fd f,w.reopen=.ok (fd,f) → 1 < fd
  shprocPush : w.shprocPush ≤ 0

/-- `get_dir` returns a descriptor that is held, or what `init_get` returns. -/
def GotDir (ret : Int × File) (s : FileConn) : Prop :=
  ret.1 ≤ 1 ∧ Conserved s ∨ ∃ fd : Nat,ret.1=fd ∧ 1 < fd ∧ Holding [fd] s

section Directories

variable {e : Config} {fd : Nat}

theorem useIndexFiles_gets (hfd : 1 < fd) (mtime : Nat) (f : File) :
    Triple (Holding []) (useIndexFiles e mtime fd f) GotDir := by
  have hmod : KeepsFd (modReq fun r => { r with requestUri := e.dirindex.getD [] }) :=
    .modReq fun _ => rfl
  intro s h
  have hopen : Holding [fd] (exec (noteOpen fd) s) := noteOpen_holding s h
  exact .inr ⟨fd,rfl,hfd,ofSrv_holding hmod _ hopen⟩

theorem refuses_gets {m : Srv Unit} (hm : KeepsFd m) (dir : File) :
    Triple (Holding []) (ofSrv (do m; return ((-1 : Int),dir))) GotDir := by
  intro s h
  have hret : KeepsFd (do m; return ((-1 : Int),dir)) := .bind hm fun _ => .pure _
  exact .inl ⟨show (-1 : Int) ≤ 1 by decide,(ofSrv_holding hret s h).conserved⟩

theorem indexDirectory_made :
    OnSuccess true (fun c c' => c'.sys=c.sys) (indexDirectory e) := by
  have hread : ∀ {f : Conn → Srv Bool},
      (∀ t,OnSuccess true (fun c c' => c'.sys=c.sys) (f t)) →
      OnSuccess true (fun c c' => c'.sys=c.sys) (get >>= f) := fun h c hv => h c c hv
  refine hread fun t => ?_
  cases t.sys.indexDirectory with
  | chdirFailed err =>
    exact .ite (fun _ => .fails Bool.false_ne_true) fun _ => .fails Bool.false_ne_true
  | opendirFailed => exact .fails Bool.false_ne_true
  | fopenFailed => exact .fails Bool.false_ne_true
  | made bytes => exact fun _ _ => rfl

theorem makeCachedirFiles_gets (dir : File) :
    Triple (fun s => Holding [] s ∧ Descriptive s.conn.sys) (makeCachedirFiles e dir) GotDir := by
  refine .run fun s hs made hmade => ?_
  obtain ⟨h,hw⟩ := hs
  have hkeep : Holding [] (exec (ofSrv (indexDirectory e)) s) :=
    ofSrv_holding (indexDirectory_keepsFd e) s h
  cases made with
  | false => exact .inl ⟨show (-1 : Int) ≤ 1 by decide,hkeep.conserved⟩
  | true =>
    have hsys : (exec (ofSrv (indexDirectory e)) s).conn.sys=s.conn.sys :=
      indexDirectory_made s.conn hmade
    rw [if_pos rfl]
    refine Triple.read (P := fun t => Holding [] t ∧ t.conn.sys=s.conn.sys) ?_ _ ⟨hkeep,hsys⟩
    intro t t' ht
    obtain ⟨rfl,ht,htsys⟩ := ht
    rw [htsys]
    cases hre : s.conn.sys.reopen with
    | ok v =>
      obtain ⟨fd,f⟩ := v
      exact useIndexFiles_gets (hw.reopen fd f hre) dir.mtime f _ ht
    | error err => exact refuses_gets (reply_keepsFd e _ _ _ _) dir _ ht

theorem getCachedirFiles_gets (cachedir : Text) (dir : File) :
    Triple (fun s => Holding [] s ∧ Descriptive s.conn.sys) (getCachedirFiles e cachedir dir)
      GotDir := by
  refine .read fun t => ?_
  intro s hs
  obtain ⟨rfl,h,hw⟩ := hs
  dsimp only
  cases hopen : s.conn.sys.openFile
      (cachedir++str "/dir."++decimal dir.dev++[46]++decimal dir.ino) with
  | ok v =>
    obtain ⟨fd,f⟩ := v
    dsimp only
    split
    · exact useIndexFiles_gets (hw.openFile _ fd f hopen) dir.mtime f s h
    · have hclosed : Holding [] (exec (noteClose fd) (exec (noteOpen fd) s)) :=
        noteClose_holding _ (noteOpen_holding s h)
      exact makeCachedirFiles_gets dir _ ⟨hclosed,hw⟩
  | error err => exact makeCachedirFiles_gets dir s ⟨h,hw⟩

theorem initCgi_value {c : Conn} (h : c.sys.shprocPush ≤ 0) : value (initCgi e) c ≤ 1 := by
  cases hworker : c.worker e with
  | true =>
    rw [(initCgi_worker e hworker).1]
    split <;> omega
  | false =>
    cases hprogram : c.program e with
    | true =>
      rw [(initCgi_starts e hworker hprogram).1]
      split <;> omega
    | false =>
      rw [(initCgi_fails e hworker hprogram).1]
      omega

theorem runDirmaker_value {c : Conn} (h : c.sys.shprocPush ≤ 0) :
    value (runDirmaker e) c ≤ 1 := by
  let c1 := exec squashKa (exec (modReq fun r => { r with responseStatus := rRequestOk }) c)
  let c2 := exec (onlyIf (c1.req.httpVersion≠.http09) (dirmakerHeader e)) c1
  have hheader : Stills (dirmakerHeader e) :=
    .bind (fun _ => rfl) fun t => .bind .getReq fun r => .bind (puts_stills _) fun _ =>
      .bind reqFlush_stills fun _ => .pure _
  have hpush : c2.sys.shprocPush=c.sys.shprocPush := by
    have honly : Stills (onlyIf (c1.req.httpVersion≠.http09) (dirmakerHeader e)) := by
      unfold onlyIf
      exact .ite hheader (.pure _)
    have hstill := congrArg World.shprocPush (honly c1)
    exact hstill
  change value (if c1.req.method=.head then pure 0 else do
    mark .dirmaker
    initCgi e : Srv Int) c2 ≤ 1
  split
  · exact Int.zero_le_ofNat 1
  · refine initCgi_value (c := exec (mark .dirmaker) c2) ?_
    change c2.sys.shprocPush ≤ 0
    rw [hpush]
    exact h

theorem runDirmakerFiles_gets :
    Triple (fun s => Holding [] s ∧ Descriptive s.conn.sys) (runDirmakerFiles e)
      fun ret s => ret ≤ 1 ∧ Conserved s := by
  intro s hs
  obtain ⟨h,hw⟩ := hs
  rw [(runDirmakerFiles_mirrors e s).2]
  refine ⟨runDirmaker_value hw.shprocPush,?_⟩
  let c := exec (runDirmaker e) s.conn
  change Conserved (exec (if c.req.dataFd≠0 then do
    noteOpen c.req.dataFd
    return value (runDirmaker e) s.conn else return value (runDirmaker e) s.conn : Files Int)
      { s with conn := c })
  by_cases hfd : c.req.dataFd=0
  · rw [if_neg (not_not_intro hfd)]
    exact Holding.conserved ⟨h.1,hfd⟩
  · rw [if_pos hfd]
    change held [] (s.history++[.opened c.req.dataFd])=
      some (if c.req.dataFd=0 then [] else [c.req.dataFd])
    rw [held_opened h.1,if_neg hfd]

theorem listDirectoryFiles_gets (dir : File) :
    Triple (fun s => Holding [] s ∧ Descriptive s.conn.sys) (listDirectoryFiles e dir)
      GotDir := by
  refine .ite (fun _ => ?_) fun _ => ?_
  · exact .seq runDirmakerFiles_gets fun ret => .pure fun s h => .inl h
  · cases e.cachedir with
    | some cachedir => exact getCachedirFiles_gets cachedir dir
    | none => exact fun s h => refuses_gets (reply_keepsFd e _ _ _ _) dir s h.1

theorem getDirFiles_gets (dir : File) :
    Triple (fun s => Holding [] s ∧ Descriptive s.conn.sys) (getDirFiles e dir) GotDir := by
  refine .read fun t => ?_
  intro s hs
  obtain ⟨rfl,h,hw⟩ := hs
  dsimp only
  cases e.dirindex with
  | none => exact listDirectoryFiles_gets dir s ⟨h,hw⟩
  | some index =>
    dsimp only
    split
    · exact refuses_gets (reply_keepsFd e _ _ _ _) dir s h
    · cases hopen : s.conn.sys.openFile (s.conn.req.pathname.getD []++index) with
      | ok v =>
        obtain ⟨fd,f⟩ := v
        have hmod : KeepsFd (modReq fun r => { r with requestUri := index }) := .modReq fun _ => rfl
        have hopened : Holding [fd] (exec (noteOpen fd) s) := noteOpen_holding s h
        have hheld := ofSrv_holding hmod _ hopened
        exact .inr ⟨fd,rfl,hw.openFile _ fd f hopen,hheld⟩
      | error err =>
        cases err with
        | noEnt => exact listDirectoryFiles_gets dir s ⟨h,hw⟩
        | _ => exact refuses_gets (reply_keepsFd e _ _ _ _) dir s h

theorem initGetDirFiles_conserves (dir : File) :
    Triple (fun s => Holding [fd] s ∧ Descriptive s.conn.sys) (initGetDirFiles e fd dir)
      fun _ => Conserved := by
  have hclose : Triple (fun s => Holding [fd] s ∧ Descriptive s.conn.sys) (noteClose fd)
      fun _ s => Holding [] s ∧ Descriptive s.conn.sys := fun s h => ⟨noteClose_holding s h.1,h.2⟩
  have hget : Triple (fun s => Holding [] s ∧ Descriptive s.conn.sys) (ofSrv getReq)
      fun _ s => Holding [] s ∧ Descriptive s.conn.sys := fun _ h => h
  refine .seq hclose fun _ => .seq hget fun r => .ite (fun _ => ?_) fun _ => ?_
  · exact fun s h => (ofSrv_holding (redirectDir_keepsFd e) s h.1).conserved
  refine .seq (getDirFiles_gets dir) fun ret => ?_
  intro s h
  change Conserved (exec (if ret.1 < 0 then pure 0 else if ret.1=0 ∨ ret.1=1 then pure ret.1 else
    initGetFileFiles e ret.1.toNat ret.2 : Files Int) s)
  rcases h with ⟨hle,h⟩|⟨fd,hret,hfd,h⟩
  · split
    · exact h
    · rw [if_pos (by omega)]
      exact h
  · rw [hret,if_neg (by omega),if_neg (by omega)]
    exact initGetFileFiles_conserves (by omega) ret.2 s h

end Directories

/-! The whole of `init_get`. -/

/-- A file is opened: that of the path, or a parent where the server looks there. -/
def Conn.opensSome (e : Config) (c : Conn) : Prop :=
  Opens c.sys (c.req.pathname.getD []) ∨
    e.useParentindex=true ∧ ∃ d,Tried e (c.req.pathname.getD []) d ∧ Opens c.sys d

/-- The rules refuse the client a file that is opened. -/
def Conn.deniedOpen (e : Config) (c : Conn) : Prop :=
  e.build.accessControl=true ∧ c.req.access e=.deny ∧ c.opensSome e

theorem openPath_opens (e : Config) (c : Conn) :
    (∃ v,value (openPath e) c=.ok v) ↔ c.opensSome e := by
  cases hopen : c.sys.openFile (c.req.pathname.getD []) with
  | ok v =>
    have hv : value (openPath e) c=.ok v := by
      simp only [openPath,value_bind,value_get,exec_get,hopen,value_pure]
    exact ⟨fun _ => .inl ⟨v,hopen⟩,fun _ => ⟨v,hv⟩⟩
  | error err =>
    obtain ⟨hfound,hnothing⟩ := openPath_parent (e := e) (c := c) rfl hopen
    have hshort : ((c.req.pathname.getD []).take maxPathLength).length <
        (c.req.pathname.getD []).length+1 := Nat.lt_succ_of_le (List.length_take_le' _ _)
    constructor
    · rintro ⟨v,hv⟩
      by_cases hparent : e.useParentindex=true
      · cases hloop : parentLoop e c.sys ((c.req.pathname.getD []).length+1)
            ((c.req.pathname.getD []).take maxPathLength) with
        | none =>
          rw [hnothing fun _ => hloop] at hv
          cases hv
        | some r =>
          obtain ⟨q,u⟩ := r
          obtain ⟨dir,-,hanc,hlong,hu,-⟩ := parentLoop_some hloop
          exact .inr ⟨hparent,dir,⟨hanc,hlong⟩,u,hu⟩
      · rw [hnothing fun h => absurd h hparent] at hv
        cases hv
    · rintro (⟨v,hv⟩|⟨hparent,d,hd,hopens⟩)
      · rw [hopen] at hv
        cases hv
      · cases hloop : parentLoop e c.sys ((c.req.pathname.getD []).length+1)
            ((c.req.pathname.getD []).take maxPathLength) with
        | none => exact absurd hopens (parentLoop_none hshort hloop d hd.1 hd.2)
        | some r => exact ⟨r.2,(hfound r.1 r.2 hparent hloop).1⟩

/-- Only the path of the request can change. -/
theorem openPath_exec (e : Config) (c : Conn) :
    ∃ path,exec (openPath e) c={ c with req := { c.req with pathname := path } } := by
  have hsame : c={ c with req := { c.req with pathname := c.req.pathname } } := rfl
  simp only [openPath,exec_bind,value_get,exec_get]
  cases c.sys.openFile (c.req.pathname.getD []) with
  | ok v => exact ⟨_,hsame⟩
  | error err =>
    dsimp only
    split
    · cases parentLoop e c.sys ((c.req.pathname.getD []).length+1)
          ((c.req.pathname.getD []).take maxPathLength) with
      | none => exact ⟨_,hsame⟩
      | some r => exact ⟨some r.1,rfl⟩
    · exact ⟨_,hsame⟩

theorem openPath_descriptor {e : Config} {c : Conn} {v : Nat×File} (hw : Descriptive c.sys)
    (hv : value (openPath e) c=.ok v) : 1 < v.1 := by
  cases hopen : c.sys.openFile (c.req.pathname.getD []) with
  | ok u =>
    have hvu : value (openPath e) c=.ok u := by
      simp only [openPath,value_bind,value_get,exec_get,hopen,value_pure]
    rw [hvu] at hv
    cases hv
    exact hw.openFile _ v.1 v.2 hopen
  | error err =>
    obtain ⟨hfound,hnothing⟩ := openPath_parent (e := e) (c := c) rfl hopen
    by_cases hparent : e.useParentindex=true
    · cases hloop : parentLoop e c.sys ((c.req.pathname.getD []).length+1)
          ((c.req.pathname.getD []).take maxPathLength) with
      | none =>
        rw [hnothing fun _ => hloop] at hv
        cases hv
      | some r =>
        obtain ⟨q,u⟩ := r
        obtain ⟨dir,-,-,-,hu,-⟩ := parentLoop_some hloop
        rw [(hfound q u hparent hloop).1] at hv
        cases hv
        exact hw.openFile _ v.1 v.2 hu
    · rw [hnothing fun h => absurd h hparent] at hv
      cases hv

theorem openFailed_keepsFd (e : Config) (err : Errno) : KeepsFd (openFailed e err) := by
  cases err with
  | _ => exact reply_keepsFd e _ _ _ _

/-- What `init_get` does once the file is open. -/
def openedRest (e : Config) (fd : Nat) (f : File) : Files Int := do
  if e.build.accessControl && (← ofSrv getReq).access e = .deny then ofSrv do
    sendRForbidden e
    return 0
  else if f.kind = .dir then initGetDirFiles e fd f
  else initGetFileFiles e fd f

/-- What it does with the result of the first `open`. -/
def openedFiles (e : Config) : Except Errno (Nat×File) → Files Int
  | .ok (fd,f) => do
    noteOpen fd
    openedRest e fd f
  | .error err => ofSrv do
    openFailed e err
    return 0

theorem openGetFiles_exec (e : Config) (s : FileConn) :
    exec (openGetFiles e) s=exec (openedFiles e (value (openPath e) s.conn))
      { s with conn := exec (openPath e) s.conn } := by
  simp only [openGetFiles,openPathFiles,exec_bind,value_bind,(Mirrors.of (openPath e) s).2]
  cases value (openPath e) s.conn with
  | ok v => rfl
  | error err => rfl

/-- The refusal leaves the file open and forgets it. -/
theorem openedRest_conserves_iff {e : Config} {fd : Nat} {f : File} {s : FileConn} (hfd : 1 < fd)
    (h : Holding [fd] s) (hw : Descriptive s.conn.sys) :
    Conserved (exec (openedRest e fd f) s) ↔
      ¬(e.build.accessControl && s.conn.req.access e=.deny) := by
  change Conserved (exec (if e.build.accessControl && s.conn.req.access e=.deny then
    ofSrv (do sendRForbidden e; return 0) else if f.kind=.dir then initGetDirFiles e fd f else
    initGetFileFiles e fd f : Files Int) s) ↔ _
  split
  · rename_i hdeny
    have hrefuse : KeepsFd (do sendRForbidden e; return (0 : Int)) :=
      .bind (reply_keepsFd e _ _ _ _) fun _ => .pure _
    obtain ⟨hheld,hdata⟩ := ofSrv_holding hrefuse s h
    refine ⟨fun hc => ?_,fun hn => absurd hdeny hn⟩
    rw [Conserved,if_pos hdata,hheld] at hc
    cases hc
  · rename_i hallow
    refine ⟨fun _ => hallow,fun _ => ?_⟩
    split
    · exact initGetDirFiles_conserves f s ⟨h,hw⟩
    · exact initGetFileFiles_conserves (by omega) f s h

/-- A descriptor that a successful `open` of `init_get` returned is closed or becomes `data_fd`
exactly once, and nothing is left after `free_request`, unless the rules refuse the file. -/
theorem initGet_conserves_iff (e : Config) (c : Conn) (hfd : c.req.dataFd=0)
    (hw : Descriptive c.sys) :
    (exec (initGetFiles e) { conn := c }).conn=exec (initGet e) c ∧
    (Conserved (exec (initGetFiles e) { conn := c }) ∧
      held [] (exec (initGetFiles e) { conn := c }).freed=some [] ↔ ¬c.deniedOpen e) := by
  refine ⟨(initGetFiles_mirrors e { conn := c }).1,?_⟩
  rw [and_iff_left_of_imp Conserved.freed]
  let c0 := exec (mark .initGet) c
  have hopens : (∃ v,value (openPath e) c0=.ok v) ↔ c.opensSome e := openPath_opens e c0
  obtain ⟨path,hexec⟩ := openPath_exec e c0
  have hnone : Holding [] { conn := exec (openPath e) c0 : FileConn } := by
    rw [hexec]
    exact ⟨rfl,hfd⟩
  have hrun := openGetFiles_exec e { conn := c0 }
  change Conserved (exec (openGetFiles e) { conn := c0 }) ↔ _
  rw [hrun]
  cases hv : value (openPath e) c0 with
  | error err =>
    have hkeep : KeepsFd (do openFailed e err; return (0 : Int)) :=
      .bind (openFailed_keepsFd e err) fun _ => .pure _
    refine ⟨fun _ hdeny => ?_,fun _ => (ofSrv_holding hkeep _ hnone).conserved⟩
    obtain ⟨v,hsome⟩ := hopens.2 hdeny.2.2
    rw [hv] at hsome
    cases hsome
  | ok v =>
    obtain ⟨fd,f⟩ := v
    have hheld : Holding [fd] (exec (noteOpen fd) _) := noteOpen_holding _ hnone
    have hsys : (exec (openPath e) c0).sys=c.sys := by
      rw [hexec]
      rfl
    have haccess : (exec (openPath e) c0).req.access e=c.req.access e := by
      rw [hexec]
      rfl
    have hrest := openedRest_conserves_iff (e := e) (f := f)
      (openPath_descriptor (e := e) (c := c0) hw hv) hheld (by rw [← hsys] at hw; exact hw)
    refine hrest.trans (not_congr ?_)
    change (e.build.accessControl && (exec (openPath e) c0).req.access e=.deny) ↔ _
    rw [haccess,Bool.and_eq_true,decide_eq_true_eq]
    exact ⟨fun h => ⟨h.1,h.2,hopens.1 ⟨_,hv⟩⟩,fun h => ⟨h.1,h.2.1⟩⟩

/-! A page that the rules keep from everyone. -/

def pageConfig (type : Access) : Config where
  build := { accessControl := true }
  docroot := some (str "/w")
  accessHostList _ := [⟨str "*",type⟩]
  fnmatch _ _ := true

def pageConn : Conn where
  req := { method := .get, httpVersion := .http10, pathname := some (str "/w/a.html") }
  sys := { openFile := fun path =>
    if path=str "/w/a.html" then .ok (5,⟨.reg,2,0,0,0,str "hi"⟩) else .error .noEnt }

theorem page_descriptive : Descriptive pageConn.sys where
  openFile path fd f h := by
    by_cases hpath : path=str "/w/a.html"
    · have hopen : pageConn.sys.openFile path=.ok (5,⟨.reg,2,0,0,0,str "hi"⟩) := if_pos hpath
      rw [hopen] at h
      cases h
      decide
    · have hopen : pageConn.sys.openFile path=.error .noEnt := if_neg hpath
      rw [hopen] at h
      cases h
  reopen fd f h := by cases h
  shprocPush := Int.le_refl 0

theorem initGet_conserves_allowed :
    (exec (initGetFiles (pageConfig .allow)) { conn := pageConn }).conn=
      exec (initGet (pageConfig .allow)) pageConn ∧
    (Conserved (exec (initGetFiles (pageConfig .allow)) { conn := pageConn }) ∧
      held [] (exec (initGetFiles (pageConfig .allow)) { conn := pageConn }).freed=some [] ↔
        ¬pageConn.deniedOpen (pageConfig .allow)) :=
  initGet_conserves_iff (pageConfig .allow) pageConn rfl page_descriptive

/-- The file stays open when the request is freed. -/
theorem initGet_leaksDenied :
    let s := exec (initGetFiles (pageConfig .deny)) { conn := pageConn }
    Descriptive pageConn.sys ∧ s.conn=exec (initGet (pageConfig .deny)) pageConn ∧
      s.history=[.opened 5] ∧ s.conn.req.dataFd=0 ∧ ¬Conserved s ∧ held [] s.freed=some [5] ∧
      value (initGet (pageConfig .deny)) pageConn=0 ∧ s.conn.req.responseStatus=rForbidden := by
  refine ⟨page_descriptive,(initGetFiles_mirrors (pageConfig .deny) { conn := pageConn }).1,?_⟩
  refine ⟨by decide +kernel,by decide +kernel,?_,by decide +kernel,by decide +kernel,
    by decide +kernel⟩
  unfold Conserved
  decide +kernel

end Crotalus
