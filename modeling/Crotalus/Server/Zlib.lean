import Crotalus.Server.Sys
import Crotalus.Framework.ByteMem

namespace Crotalus

/-! Output filters: `mime_zlib.c`, and the mode check of `gzdopen`. -/

def hexDigit (n : Nat) : Byte := if n < 10 then UInt8.ofNat (48 + n) else UInt8.ofNat (87 + n)

def hexRev : Nat → Nat → Text
  | 0, _ => []
  | k + 1, n => if n / 16 = 0 then [hexDigit (n % 16)] else hexDigit (n % 16) :: hexRev k (n / 16)

/-- `"%x"` of an `unsigned int`. -/
def hex (n : Nat) : Text := (hexRev 8 (u32 n)).reverse

/-- The bytes waiting between the two buffer indices. -/
def Request.pending (r : Request) : List Byte :=
  ByteMem.slice r.buffer r.bufferStart (r.bufferEnd - r.bufferStart)

/-- What a data loop makes of its socket results: the results left and the bytes sent.
`w_len` is unsigned, so a failed write is no error to the loop: it moves the offset back
by one, and from 0 to past the end. -/
def chunkLoop (w : List Byte) : Nat → List IoRes → List IoRes × List Byte
  | _, [] => ([], [])
  | of, .done n :: rest =>
    if of < w.length then
      let sent := (w.drop of).take n
      let (rest, out) := chunkLoop w (of + sent.length) rest
      (rest, sent ++ out)
    else (.done n :: rest, [])
  | of, .fail e :: rest =>
    if of < w.length then
      if of = 0 then (rest, []) else chunkLoop w (of - 1) rest
    else (.fail e :: rest, [])

def chunkData (w : List Byte) : Srv Unit := modify fun c =>
  let (rest, out) := chunkLoop w 0 c.sys.sock
  { c with wire := c.wire ++ out, sys := { c.sys with sock := rest } }

/-- Short writes of the size line and of the closing CRLF go unnoticed only when the call
fails: -1 converts to the largest `size_t`, which is not below the length. -/
def mimeFilterWriteChunk (w : List Byte) : Srv Int := do
  let head := hex w.length ++ crlf
  match ← sockWrite head with
  | .ok n =>
    if n < head.length then return -2
    else
      chunkData w
      match ← sockWrite crlf with
      | .ok n => if n < crlf.length then return -1 else return 0
      | .error _ => return 0
  | .error _ =>
    chunkData w
    match ← sockWrite crlf with
    | .ok n => if n < crlf.length then return -1 else return 0
    | .error _ => return 0

def writeChunks : List (List Byte) → Srv Unit
  | [] => pure ()
  | w :: ws => do
    let _ ← mimeFilterWriteChunk w
    writeChunks ws

/-- The rounds of the copying loop of `mime_filter_write_mem`: its counter, an `int`,
restarts at 0 whatever the position it reads from. At most `k` rounds are followed, which is
all of them unless the counter overflows. -/
def memRounds (fl : List Byte) (len : Int) : Nat → Nat → Int → List (List Byte)
  | 0, _, _ => []
  | k + 1, pos, of =>
    if of < len then
      let w := (fl.drop pos).take (min (bufferSize : Int) (i32 (len - of)) % 2^64).toNat
      w :: memRounds fl len k (pos + w.length) (i32 (of + bufferSize))
    else []

/-- `mime_filter_write_mem` for the length it has got from `lseek`. To seek to a negative
offset fails and leaves the position, the end of the file. -/
def forwardMem (fl : List Byte) (len : Int) : Srv Unit := do
  let r ← getReq
  if len = r.gzipOf then pure ()
  else
    let pos := if r.gzipOf < 0 then fl.length else r.gzipOf.toNat
    writeChunks (memRounds fl len (fl.length + 1) pos 0)
    modReq fun r => { r with gzipOf := len }

def mimeFilterWriteMem (fl : List Byte) : Srv Unit := forwardMem fl (i32 fl.length)

/-- `gz_open` refuses a mode with `+`, and one that names no direction. -/
def gzdopenAccepts (mode : Text) : Bool :=
  !mode.contains 43 && (mode.contains 114 || mode.contains 119 || mode.contains 97)

def mimeFilterInit : FilterKind → Srv Unit
  | .deflate => do
    let ok ← allocOk
    modReq fun r => { r with zlib := if ok then some [] else none }
  | .gzip => do
    let c ← get
    modReq fun r => { r with
      gzipOf := 0
      gzipFl := if c.sys.shmOpen && gzdopenAccepts (str "w+") then some [] else none }

def takeGz : Srv (List Byte × Int) := do
  let c ← get
  set { c with sys := { c.sys with gz := c.sys.gz.tail } }
  return c.sys.gz.headD ([], -1)

/-- `filter->write`: the number of buffered bytes consumed, negative for an error. -/
def mimeFilterWrite (e : Config) : FilterKind → Srv Int
  | .deflate => do
    let r ← getReq
    if r.bufferStart = r.bufferEnd then return 0
    else
      match r.zlib with
      | none => return -2
      | some hist =>
        match e.deflate (hist ++ [r.pending]) with
        | none => return -2
        | some outs =>
          modReq fun r => { r with zlib := some (hist ++ [r.pending]) }
          writeChunks outs
          return r.pending.length
  | .gzip => do
    let r ← getReq
    match r.gzipFl with
    | none => return -2
    | some fl =>
      let (grown, err) ← takeGz
      modReq fun r => { r with gzipFl := some (fl ++ grown) }
      if err < 0 then return -2
      else
        onlyIf (err > 0) (mimeFilterWriteMem (fl ++ grown))
        return err

/-- `filter->flush`. -/
def mimeFilterFlush (e : Config) : FilterKind → Srv Unit
  | .deflate => do
    let r ← getReq
    match r.zlib.bind e.deflateEnd with
    | none => pure ()
    | some outs =>
      writeChunks outs
      let _ ← mimeFilterWriteChunk []
      modReq fun r => { r with zlib := none }
  | .gzip => do
    let r ← getReq
    match r.gzipFl with
    | none => pure ()
    | some fl =>
      let (grown, err) ← takeGz
      if err ≠ 0 then modReq fun r => { r with gzipFl := none }
      else
        mimeFilterWriteMem (fl ++ grown)
        let _ ← mimeFilterWriteChunk []
        pure ()

end Crotalus
