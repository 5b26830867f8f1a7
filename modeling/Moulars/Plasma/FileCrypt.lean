import Moulars.Lib.Cursor
import Moulars.Plasma.Ciphers

/-!
Encrypted files: the reader that deciphers block by block, and the writer that enciphers block by
block.

A flush of the writer enciphers the block that is not yet full, brings the size in the header
up to date and goes back, so that the block is written again when there is more. The streams
below are taken not to fail.
-/

namespace Moulars.Plasma

open Lib Lib.Wire Lib.Fallible

inductive EncryptionType
  | unencrypted
  | tea
  | xxtea
  deriving DecidableEq

def asciiBytes (s : String) : Bytes := s.toList.map fun c => UInt8.ofNat c.toNat

namespace EncryptionType

/-- `EncryptionType::from_stream`: the type, and the stream after the marker if there is one. -/
def fromStream (stream : Cursor) : EncryptionType × Cursor :=
  match stream.readExact 12 with
  -- the stream is too small for a marker
  | .error _ => (.unencrypted, stream)
  | .ok (buffer, rest) =>
    if buffer = asciiBytes "whatdoyousee" ∨ buffer = asciiBytes "BryceIsSmart" then (.tea, rest)
    else if buffer = asciiBytes "notthedroids" then (.xxtea, rest)
    else (.unencrypted, stream)

def magic : EncryptionType → Bytes
  | .unencrypted => []
  | .tea => asciiBytes "whatdoyousee"
  | .xxtea => asciiBytes "notthedroids"

end EncryptionType

/-! ### Blocks -/

namespace EncryptionType

def unreachableCode : Fault := .panic "internal error: entered unreachable code"

def decipher (t : EncryptionType) (key : CryptKey) (block : List UInt32) :
    Except Fault (List UInt32) :=
  match t with
  | .unencrypted => .error unreachableCode
  | .tea => .ok (teaDecipher block key)
  | .xxtea => xxteaDecipher block key

def encipher (t : EncryptionType) (key : CryptKey) (block : List UInt32) :
    Except Fault (List UInt32) :=
  match t with
  | .unencrypted => .error unreachableCode
  | .tea => .ok (teaEncipher block key)
  | .xxtea => xxteaEncipher block key

end EncryptionType

/-! ### Words and bytes -/

def wordsOf (bs : Bytes) : List UInt32 :=
  [UInt32.ofNat (ofLe (bs.take 4)), UInt32.ofNat (ofLe ((bs.drop 4).take 4))]

def bytesOf (block : List UInt32) : Bytes := block.flatMap fun v => le 4 v.toNat

/-- `copy_from_slice` into the bytes from `pos` on. -/
def splice (bs : Bytes) (pos : ℕ) (src : Bytes) : Bytes :=
  bs.take pos ++ src ++ bs.drop (pos + src.length)

/-! ### The reader -/

structure EncryptedReader where
  base : Cursor
  encryptionType : EncryptionType
  key : CryptKey
  buffer : Bytes
  readPos : ℕ
  baseSize : ℕ

namespace EncryptedReader

def new (baseStream : Cursor) (key : CryptKey) : Except Fault EncryptedReader :=
  let (encryptionType, base) := EncryptionType.fromStream baseStream
  if encryptionType ≠ .unencrypted then
    (base.readExact 4).map fun (size, base) =>
      ⟨base, encryptionType, key, List.replicate 8 0, 0, ofLe size⟩
  else .ok ⟨base, encryptionType, key, List.replicate 8 0, 0, 0⟩

def nextBlock (r : EncryptedReader) : Except Fault EncryptedReader :=
  (r.base.readExact 8).bind fun (bs, base) =>
    (r.encryptionType.decipher r.key (wordsOf bs)).map fun block =>
      { r with base, buffer := bytesOf block }

/-- `while dest_pos < buf.len()`, in at most the given number of rounds, after `dest`. -/
def readLoop (len : ℕ) : ℕ → Bytes → EncryptedReader → Except Fault (Bytes × EncryptedReader)
  | 0, dest, r => .ok (dest, r)
  | n + 1, dest, r =>
    if dest.length < len then
      let bufferPos := r.readPos % r.buffer.length
      let copyLen := min (min (len - dest.length) (r.buffer.length - bufferPos))
        (r.baseSize - r.readPos)
      if copyLen = 0 then .ok (dest, r)
      else (if bufferPos = 0 then r.nextBlock else .ok r).bind fun r =>
        readLoop len n (dest ++ (r.buffer.drop bufferPos).take copyLen)
          { r with readPos := r.readPos + copyLen }
    else .ok (dest, r)

/-- `read`, with a buffer of `len` bytes: the bytes put into it. -/
def read (r : EncryptedReader) (len : ℕ) : Except Fault (Bytes × EncryptedReader) :=
  if r.encryptionType = .unencrypted then
    let (bs, base) := r.base.read len
    .ok (bs, { r with base })
  else readLoop len len [] r

/-- Reads with buffers of the given sizes: all the bytes put into them. -/
def reads (r : EncryptedReader) : List ℕ → Except Fault Bytes
  | [] => .ok []
  | len :: lens => (r.read len).bind fun (bs, r) => (r.reads lens).map fun more => bs ++ more

end EncryptedReader

/-! ### The writer -/

structure EncryptedWriter where
  base : Cursor
  encryptionType : EncryptionType
  key : CryptKey
  buffer : Bytes
  writePos : ℕ
  baseSize : ℕ
  sizePos : ℕ

namespace EncryptedWriter

def new (baseStream : Cursor) (encryptionType : EncryptionType) (key : CryptKey) :
    EncryptedWriter :=
  let base := baseStream.write encryptionType.magic
  -- the size is brought up to date later
  ⟨base.write (le 4 0), encryptionType, key, List.replicate 8 0, 0, 0, base.pos⟩

def writeBlock (w : EncryptedWriter) : Except Fault EncryptedWriter :=
  (w.encryptionType.encipher w.key (wordsOf w.buffer)).map fun block =>
    { w with base := block.foldl (fun base v => base.write (le 4 v.toNat)) w.base }

/-- `while src_pos < buf.len()`, in at most the given number of rounds, from `srcPos` on. -/
def writeLoop (buf : Bytes) : ℕ → ℕ → EncryptedWriter → Except Fault (ℕ × EncryptedWriter)
  | 0, srcPos, w => .ok (srcPos, w)
  | n + 1, srcPos, w =>
    if srcPos < buf.length then
      let bufferPos := w.writePos % w.buffer.length
      let copyLen := min (buf.length - srcPos) (w.buffer.length - bufferPos)
      if copyLen = 0 then .ok (srcPos, w)
      else
        let w := { w with
          buffer := splice w.buffer bufferPos ((buf.drop srcPos).take copyLen)
          writePos := w.writePos + copyLen }
        (if w.writePos % w.buffer.length = 0 then w.writeBlock else .ok w).bind
          (writeLoop buf n (srcPos + copyLen))
    else .ok (srcPos, w)

/-- `write`: the number of bytes taken. -/
def write (w : EncryptedWriter) (buf : Bytes) : Except Fault (ℕ × EncryptedWriter) :=
  if w.encryptionType = .unencrypted then .ok (buf.length, { w with base := w.base.write buf })
  else (writeLoop buf buf.length 0 w).map fun (srcPos, w) =>
    (srcPos, { w with baseSize := max w.baseSize w.writePos })

/-- `flush`, and the writer after it, whether it succeeds or not. -/
def flush (w : EncryptedWriter) : Except Fault Unit × EncryptedWriter :=
  if w.encryptionType = .unencrypted then (.ok (), w)
  else
    let syncPos := w.base.pos
    match w.writeBlock with
    | .error e => (.error e, w)
    | .ok w =>
      if w.baseSize < 2 ^ 32 then
        (.ok (), { w with
          base := ((w.base.seek w.sizePos).write (le 4 w.baseSize)).seek syncPos })
      else (.error (.error "Stream too large for encrypted header"), w)

/-- `into_inner`, and what the writer leaves when it is dropped. -/
def intoInner (w : EncryptedWriter) : Cursor := w.flush.2.base

inductive Call
  | write (buf : Bytes)
  | flush

def Call.written : Call → Bytes
  | .write buf => buf
  | .flush => []

def run (w : EncryptedWriter) : Call → Except Fault EncryptedWriter
  | .write buf => (w.write buf).map Prod.snd
  | .flush => w.flush.1.map fun _ => w.flush.2

/-- `write_all`, in at most the given number of calls of `write`. -/
def writeAll : ℕ → EncryptedWriter → Bytes → Except Fault EncryptedWriter
  | 0, w, _ => .ok w
  | n + 1, w, buf =>
    if buf = [] then .ok w
    else (w.write buf).bind fun (taken, w) =>
      if taken = 0 then .error (.error "failed to write whole buffer")
      else writeAll n w (buf.drop taken)

end EncryptedWriter

/-- `encrypt_file`, and the content of the file after it. `io::copy` hands the content over in
pieces, and the writer is flushed once more when it is dropped. -/
def encryptFile (pieces : Bytes → List Bytes) (encryptionType : EncryptionType) (key : CryptKey)
    (content : Bytes) : Except Fault Bytes :=
  if (EncryptionType.fromStream ⟨content, 0⟩).1 = .unencrypted then
    ((pieces content).foldlM (fun (w : EncryptedWriter) piece => w.writeAll piece.length piece)
      (EncryptedWriter.new ⟨[], 0⟩ encryptionType key)).bind fun outFile =>
        outFile.flush.1.map fun _ => outFile.flush.2.intoInner.data
  else .ok content

/-- What is in the file after `encrypt_file`, also if that has failed: the file is written anew
before the last call of `flush` finds that the content was too large. -/
def contentAfterEncryptFile (pieces : Bytes → List Bytes) (encryptionType : EncryptionType)
    (key : CryptKey) (content : Bytes) : Bytes :=
  if (EncryptionType.fromStream ⟨content, 0⟩).1 = .unencrypted then
    match (pieces content).foldlM
      (fun (w : EncryptedWriter) piece => w.writeAll piece.length piece)
      (EncryptedWriter.new ⟨[], 0⟩ encryptionType key) with
    | .ok outFile => outFile.flush.2.intoInner.data
    | .error _ => []
  else content

lemma contentAfterEncryptFile_of_ok {pieces : Bytes → List Bytes}
    {encryptionType : EncryptionType} {key : CryptKey} {content file : Bytes}
    (h : encryptFile pieces encryptionType key content = .ok file) :
    contentAfterEncryptFile pieces encryptionType key content = file := by
  unfold encryptFile at h
  unfold contentAfterEncryptFile
  split_ifs at h ⊢
  · split
    · rename_i outFile hrun
      rw [hrun] at h
      dsimp only [Except.bind] at h
      cases hflush : outFile.flush.1 with
      | error e =>
        rw [hflush] at h
        cases h
      | ok u =>
        rw [hflush] at h
        exact Except.ok.inj h
    · rename_i hrun
      rw [hrun] at h
      cases h
  · exact Except.ok.inj h

end Moulars.Plasma
