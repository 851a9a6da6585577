import Crotalus.Server.Pipe
import Crotalus.Server.Settings

namespace Crotalus

/-! `mime_cgi.c`: the job of a worker, in the process that runs it. -/

/-- `work_t`; its path name has room for `PATH_MAX` characters and a NUL. -/
structure Work where
  pathname : Text
  method : Method
  cgiType : CgiType
  fd : Nat
  deriving DecidableEq, Repr

/-- The record that `init_work_cgi` pushes. -/
def Request.work (r : Request) : Work :=
  ⟨(r.pathname.getD []).take (maxPathLength + 1), r.method, r.cgiType, r.fd⟩

/-- What the system does for a worker: the directories it can change to, and what the shell makes
of a command with a standard input, in a directory. `php` is the embedded interpreter. -/
structure Worker where
  chdir : Text → Bool
  mem : Bool
  popen : Option Text → Text → Option (List Byte) → Except Nat (List Byte)
  php : Work → List Byte

/-- A `uint32_t` as `shbuf_cat` copies it. -/
def le32 (n : Nat) : List Byte :=
  [UInt8.ofNat n, UInt8.ofNat (n / 256), UInt8.ofNat (n / 256^2), UInt8.ofNat (n / 256^3)]

/-- A C string in an array: what lies before the first NUL. -/
def cString (bs : List Byte) : List Byte := bs.takeWhile (· ≠ 0)

/-- Directory and command of a job. Only the two kinds that are no work for the pool are started
in their own directory. -/
def Worker.command (p : Worker) (w : Work) : Option (Option Text × Text) :=
  let pathname := (cString w.pathname).take (maxPathLength - 2)
  if w.cgiType = .exec ∨ w.cgiType = .nph then
    match strrchr 47 pathname with
    | none => none
    | some i =>
      if p.chdir (pathname.take i) && p.mem then
        some (some (pathname.take i), str "./" ++ pathname.drop (i + 1))
      else none
  else some (none, pathname)

/-- What the loop over `fgets` collects of the program's output. -/
def collectOutput (out : List Byte) : List Byte := (fgets 4095 out).flatMap cString

/-- `cgi_work_main`: a result code that is not 0, or what goes back to the server. `post` is the
file with the body. -/
def cgiWorkMain (p : Worker) (w : Work) (post : List Byte) : Except Int (List Byte) :=
  if w.cgiType = .php then .ok (le32 w.fd ++ p.php w)
  else
    match p.command w with
    | none => .error (-1)
    | some (dir, cmd) =>
      match p.popen dir cmd (if w.method = .post then some post else none) with
      | .error errno => .error (-errno)
      | .ok out => .ok (le32 w.fd ++ collectOutput out)

/-- The pool hands the result of a job to `cgi_work_resp`. -/
def workDone (res : Except Int (List Byte)) (cs : List Conn) : List Conn :=
  match res with
  | .error err => cgiWorkRespAmong err [] cs
  | .ok buff => cgiWorkRespAmong 0 buff cs

end Crotalus
