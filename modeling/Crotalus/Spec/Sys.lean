import Crotalus.Server.Sys

namespace Crotalus

open Stateful

@[simp] theorem exec_getReq (c : Conn) : exec getReq c = c := (rfl)
@[simp] theorem value_getReq (c : Conn) : value getReq c = c.req := (rfl)
@[simp] theorem exec_modReq (f : Request → Request) (c : Conn) :
    exec (modReq f) c = { c with req := f c.req } := (rfl)
@[simp] theorem exec_squashKa (c : Conn) :
    exec squashKa c = { c with req := { c.req with keepalive := .stopped } } := (rfl)
@[simp] theorem exec_setStatus (st : Status) (c : Conn) :
    exec (setStatus st) c =
      { c with
        req := { c.req with status := st }
        died := if st = .dead then c.died.or (some c.wire) else c.died } := (rfl)
@[simp] theorem exec_mark (site : Site) (c : Conn) :
    exec (mark site) c = { c with trace := c.trace ++ [⟨site, c.req, c.sys⟩] } := (rfl)

@[simp] theorem exec_onlyIf (b : Bool) (m : Srv Unit) (c : Conn) :
    exec (onlyIf b m) c = if b then exec m c else c := by
  unfold onlyIf
  split <;> rfl

@[simp] theorem over_dead : Status.over .dead = true := (rfl)
@[simp] theorem over_timedOut : Status.over .timedOut = true := (rfl)
@[simp] theorem over_done : Status.over .done = false := (rfl)
@[simp] theorem over_write : Status.over .write = false := (rfl)
@[simp] theorem over_ioshuffle : Status.over .ioshuffle = false := (rfl)

theorem over_iff (st : Status) : st.over = true ↔ st = .timedOut ∨ st = .dead := by
  cases st <;> decide

/-- The next write on the client socket would block. -/
def wouldBlock (sock : List IoRes) : Bool :=
  match sock with
  | [] => true
  | .fail e :: _ => e = .again
  | .done _ :: _ => false

/-- Of the bytes offered to a `write`, those the next result of the socket accepts. -/
def accepted (bs : List Byte) : List IoRes → List Byte
  | .done n :: _ => bs.take n
  | _ => []

/-- The next result accepts some of the bytes offered and not all. -/
def shortWrite (bs : List Byte) : List IoRes → Bool
  | .done n :: _ => n < bs.length
  | _ => false

/-- Descriptor and direction of a refused call. -/
def Conn.waiting (c : Conn) (fd : Nat) (d : Dir) (e : Errno) : Conn :=
  if e = .again then { c with waits := some (fd, d) } else c

theorem exec_waitFor (fd : Nat) (d : Dir) (e : Errno) (c : Conn) :
    exec (waitFor fd d e) c = c.waiting fd d e := by
  unfold waitFor Conn.waiting
  split <;> rfl

/-- The next result of the socket, and the state the call leaves. -/
theorem sockWrite_done (bs : List Byte) {c : Conn} {n : Nat} {rest : List IoRes}
    (h : c.sys.sock = .done n :: rest) :
    value (sockWrite bs) c = .ok (min n bs.length) ∧
      exec (sockWrite bs) c =
        { c with wire := c.wire ++ bs.take n, sys := { c.sys with sock := rest } } := by
  simp [sockWrite, h]

theorem sockWrite_fail (bs : List Byte) {c : Conn} {err : Errno} {rest : List IoRes}
    (h : c.sys.sock = .fail err :: rest) :
    value (sockWrite bs) c = .error err ∧
      exec (sockWrite bs) c =
        Conn.waiting { c with sys := { c.sys with sock := rest } } c.req.fd .write err := by
  simp [sockWrite, h, exec_waitFor]

theorem sockWrite_nil (bs : List Byte) {c : Conn} (h : c.sys.sock = []) :
    value (sockWrite bs) c = .error .again ∧
      exec (sockWrite bs) c = { c with waits := some (c.req.fd, .write) } := by
  simp [sockWrite, h, exec_waitFor, Conn.waiting]

theorem shortWrite_iff {bs : List Byte} {sock : List IoRes} :
    shortWrite bs sock = true ↔ ∃ n rest, sock = .done n :: rest ∧ n < bs.length := by
  match sock with
  | [] => simp [shortWrite]
  | .fail _ :: _ => simp [shortWrite]
  | .done n :: rest => simp [shortWrite]

theorem shortWrite_value {bs : List Byte} {c : Conn} {n : Nat}
    (hv : value (sockWrite bs) c = .ok n) (hn : n < bs.length) :
    shortWrite bs c.sys.sock = true := by
  match hs : c.sys.sock with
  | [] => simp [(sockWrite_nil bs hs).1] at hv
  | .fail _ :: _ => simp [(sockWrite_fail bs hs).1] at hv
  | .done k :: rest =>
    have hk : min k bs.length = n := by simpa [(sockWrite_done bs hs).1] using hv
    exact shortWrite_iff.mpr ⟨k, rest, rfl, by omega⟩

theorem i32_of_lt {n : Nat} (h : n < 2 ^ 31) : i32 n = n := by
  simp only [i32, Int.bmod]
  omega

theorem i32_ne_of_le {n : Nat} (h : 2 ^ 31 ≤ n) : i32 n ≠ n := by
  simp only [i32, Int.bmod]
  omega

theorem takeRecv_le {k : Nat} {pipe : List RecvRes} {bs : List Byte}
    (h : (takeRecv k pipe).1 = .ok bs) : bs.length ≤ k := by
  match pipe with
  | [] => exact nomatch h
  | .fail _ :: _ => exact nomatch h
  | .data bs' :: rest =>
    cases h
    exact List.length_take_le k bs'

/-- The bytes that a `read` has returned. -/
def readBytes : Except Errno (List Byte) → List Byte
  | .ok bs => bs
  | .error _ => []

theorem exec_sockRead (k : Nat) (c : Conn) :
    exec (sockRead k) c =
      { c with
        sys := { c.sys with recv := (takeRecv k c.sys.recv).2 }
        waits := match (takeRecv k c.sys.recv).1 with
          | .error .again => some (c.req.fd, .read)
          | _ => c.waits
        input := c.input ++ readBytes (takeRecv k c.sys.recv).1
        body := c.body ++ readBytes (takeRecv k c.sys.recv).1 } := by
  cases h : (takeRecv k c.sys.recv).1 with
  | ok bs => simp [sockRead, h, received, readBytes]
  | error err =>
    cases err <;> simp [sockRead, h, exec_waitFor, Conn.waiting, readBytes]

theorem value_sockRead (k : Nat) (c : Conn) :
    value (sockRead k) c = (takeRecv k c.sys.recv).1 := by
  cases h : (takeRecv k c.sys.recv).1 with
  | ok bs => simp [sockRead, h]
  | error err => simp [sockRead, h]

theorem exec_pipeRead (k : Nat) (c : Conn) :
    exec (pipeRead k) c =
      { c with
        sys := { c.sys with pipe := (takeRecv k c.sys.pipe).2 }
        waits := match (takeRecv k c.sys.pipe).1 with
          | .error .again => some (c.req.dataFd, .read)
          | _ => c.waits } := by
  cases h : (takeRecv k c.sys.pipe).1 with
  | ok bs => simp [pipeRead, h]
  | error err =>
    cases err <;> simp [pipeRead, h, exec_waitFor, Conn.waiting]

theorem value_pipeRead (k : Nat) (c : Conn) :
    value (pipeRead k) c = (takeRecv k c.sys.pipe).1 := by
  cases h : (takeRecv k c.sys.pipe).1 <;> simp [pipeRead, h]

/-- A `write` to the file of a body. -/
inductive Posted (bs : List Byte) (c : Conn) : Except Errno Nat → Conn → Prop where
  | took (n : Nat) (w : World) :
      Posted bs c (.ok (min n bs.length)) { c with postFile := c.postFile ++ bs.take n, sys := w }
  | failed (err : Errno) (w : World) (d : Option (Nat × Dir))
      (hd : d = if err = .again then some (c.req.postDataFd, .write) else c.waits) :
      Posted bs c (.error err) { c with sys := w, waits := d }

theorem postWrite_posted (bs : List Byte) (c : Conn) :
    Posted bs c (value (postWrite bs) c) (exec (postWrite bs) c) := by
  match hs : c.sys.post with
  | [] =>
    have hv : value (postWrite bs) c = .error .again := by simp [postWrite, hs]
    have he : exec (postWrite bs) c = { c with waits := some (c.req.postDataFd, .write) } := by
      simp [postWrite, hs, exec_waitFor, Conn.waiting]
    rw [hv, he]
    exact .failed .again c.sys _ rfl
  | .fail err :: rest =>
    have hv : value (postWrite bs) c = .error err := by simp [postWrite, hs]
    have he : exec (postWrite bs) c =
        Conn.waiting { c with sys := { c.sys with post := rest } } c.req.postDataFd .write err := by
      simp [postWrite, hs, exec_waitFor]
    rw [hv, he]
    cases err <;> exact .failed _ { c.sys with post := rest } _ rfl
  | .done n :: rest =>
    have hv : value (postWrite bs) c = .ok (min n bs.length) := by simp [postWrite, hs]
    have he : exec (postWrite bs) c =
        { c with postFile := c.postFile ++ bs.take n, sys := { c.sys with post := rest } } := by
      simp [postWrite, hs]
    rw [hv, he]
    exact .took n _

/-- What one more try keeps, all of them keep. -/
theorem retryIntr_spec {α : Type} {io : Srv (Except Errno α)}
    {R : Conn → Except Errno α → Conn → Prop} (hio : ∀ c, R c (value io c) (exec io c))
    (htrans : ∀ c c' c'' res, R c (.error .intr) c' → R c' res c'' → R c res c'') (k : Nat)
    (c : Conn) : R c (value (retryIntr io k) c) (exec (retryIntr io k) c) := by
  induction k generalizing c with
  | zero => exact hio c
  | succ k ih =>
    have hone := hio c
    match hv : value io c with
    | .error .intr =>
      have hrun : value (retryIntr io (k + 1)) c = value (retryIntr io k) (exec io c) ∧
          exec (retryIntr io (k + 1)) c = exec (retryIntr io k) (exec io c) := by
        simp only [retryIntr, value_bind, exec_bind, hv, and_self]
      rw [hrun.1, hrun.2]
      rw [hv] at hone
      exact htrans _ _ _ _ hone (ih (exec io c))
    | .ok a =>
      have hrun : value (retryIntr io (k + 1)) c = .ok a ∧
          exec (retryIntr io (k + 1)) c = exec io c := by
        simp only [retryIntr, value_bind, exec_bind, hv, value_pure, exec_pure, and_self]
      rw [hrun.1, hrun.2]
      rwa [hv] at hone
    | .error .again | .error .connReset | .error .pipe | .error .noEnt | .error .acces
    | .error .perm | .error .noMem | .error .noSpc | .error .inval | .error .other =>
      simp only [retryIntr, value_bind, exec_bind, hv, value_pure, exec_pure]
      rwa [hv] at hone

/-- A write puts some of the bytes on the wire and returns their number, or puts none. -/
inductive Wrote (bs : List Byte) (c : Conn) : Except Errno Nat → Conn → Prop where
  | took (n : Nat) (w : World) (d : Option (Nat × Dir)) : Wrote bs c (.ok (bs.take n).length)
      { c with wire := c.wire ++ bs.take n, sys := w, waits := d }
  | failed (err : Errno) (w : World) (d : Option (Nat × Dir)) : Wrote bs c (.error err)
      { c with sys := w, waits := d }

theorem sockWrite_wrote (bs : List Byte) (c : Conn) :
    Wrote bs c (value (sockWrite bs) c) (exec (sockWrite bs) c) := by
  match hs : c.sys.sock with
  | [] =>
    obtain ⟨hv, he⟩ := sockWrite_nil bs hs
    rw [hv, he]
    exact .failed .again c.sys _
  | .fail err :: rest =>
    obtain ⟨hv, he⟩ := sockWrite_fail bs hs
    rw [hv, he]
    unfold Conn.waiting
    split
    · exact .failed err _ _
    · exact .failed err _ c.waits
  | .done n :: rest =>
    obtain ⟨hv, he⟩ := sockWrite_done bs hs
    rw [hv, he, ← List.length_take]
    exact .took n _ c.waits

theorem retryIntr_wrote (bs : List Byte) (k : Nat) (c : Conn) :
    Wrote bs c (value (retryIntr (sockWrite bs) k) c) (exec (retryIntr (sockWrite bs) k) c) := by
  refine retryIntr_spec (sockWrite_wrote bs) ?_ k c
  intro c c' c'' res h h'
  cases h with
  | failed _ w d =>
    cases h' with
    | took n w' d' => exact .took n w' d'
    | failed err w' d' => exact .failed err w' d'

/-- A read of the data file returns some of the bytes asked for, from the first on. -/
inductive ReadFile (off k : Nat) (c : Conn) : Except Errno (List Byte) → Conn → Prop where
  | got (n : Nat) (w : World) (d : Option (Nat × Dir)) :
      ReadFile off k c (.ok (((c.req.dataFile.drop off).take k).take n)) { c with sys := w, waits := d }
  | failed (err : Errno) (w : World) (d : Option (Nat × Dir)) :
      ReadFile off k c (.error err) { c with sys := w, waits := d }

theorem fileRead_readFile (off k : Nat) (c : Conn) :
    ReadFile off k c (value (fileRead off k) c) (exec (fileRead off k) c) := by
  match hs : c.sys.file with
  | [] =>
    have hv : value (fileRead off k) c = .error .again := by simp [fileRead, hs]
    have he : exec (fileRead off k) c = { c with waits := some (c.req.dataFd, .read) } := by
      simp [fileRead, hs, exec_waitFor, Conn.waiting]
    rw [hv, he]
    exact .failed .again c.sys _
  | .fail err :: rest =>
    have hv : value (fileRead off k) c = .error err := by simp [fileRead, hs]
    have he : exec (fileRead off k) c =
        Conn.waiting { c with sys := { c.sys with file := rest } } c.req.dataFd .read err := by
      simp [fileRead, hs, exec_waitFor]
    rw [hv, he]
    unfold Conn.waiting
    split
    · exact .failed err _ _
    · exact .failed err _ c.waits
  | .done n :: rest =>
    have hv : value (fileRead off k) c = .ok (((c.req.dataFile.drop off).take k).take n) := by
      simp [fileRead, hs, List.take_take]
    have he : exec (fileRead off k) c = { c with sys := { c.sys with file := rest } } := by
      simp [fileRead, hs]
    rw [hv, he]
    exact .got n _ c.waits

theorem retryIntr_readFile (off k n : Nat) (c : Conn) :
    ReadFile off k c (value (retryIntr (fileRead off k) n) c)
      (exec (retryIntr (fileRead off k) n) c) := by
  refine retryIntr_spec (fileRead_readFile off k) ?_ n c
  intro c c' c'' res h h'
  cases h with
  | failed _ w d =>
    cases h' with
    | got n w' d' => exact .got n w' d'
    | failed err w' d' => exact .failed err w' d'

/-- Whenever the program returns `ok`, it has gone from a state to one that `R` relates. -/
def OnSuccess {α : Type} (ok : α) (R : Conn → Conn → Prop) (m : Srv α) : Prop :=
  ∀ c, value m c=ok → R c (exec m c)

section OnSuccess

variable {α β : Type} {ok : β} {R : Conn → Conn → Prop}

theorem OnSuccess.fails {m : Srv α} {b : β} (h : b≠ok) :
    OnSuccess ok R (m >>= fun _ => pure b) := fun _ hv => absurd hv h

theorem OnSuccess.ite {p : Prop} [Decidable p] {m n : Srv β} (hm : p → OnSuccess ok R m)
    (hn : ¬p → OnSuccess ok R n) : OnSuccess ok R (if p then m else n) := by
  split
  · exact hm ‹_›
  · exact hn ‹_›

/-- What holds after the last part of a program, whatever the first did. -/
theorem OnSuccess.last {P : Conn → Prop} {m : Srv α} {f : α → Srv β}
    (h : ∀ a, OnSuccess ok (fun _ => P) (f a)) : OnSuccess ok (fun _ => P) (m >>= f) :=
  fun c hv => h (value m c) (exec m c) hv

end OnSuccess

end Crotalus
