import Moulars.Plasma.FileCrypt

/-!
What an encrypted file holds, and that writer and reader agree on it.

The content is padded to whole blocks; the padding, and whatever is in the stream after the
last block, is never read. The writer keeps all full blocks in the stream, and those bytes
that do not fill a block yet in its buffer; a flush adds the last block and the size.
-/

namespace Moulars.Plasma

open Lib Lib.Wire Lib.Fallible

/-! ### Blocks -/

namespace EncryptionType

variable {t : EncryptionType} (ht : t ≠ .unencrypted) (key : CryptKey)
include ht

lemma exists_encipher (a b : UInt32) :
    ∃ c d, t.encipher key [a, b] = .ok [c, d] ∧ t.decipher key [c, d] = .ok [a, b] := by
  cases t with
  | unencrypted => exact absurd rfl ht
  | tea =>
    obtain ⟨c, d, henc⟩ : ∃ c d, teaEncipher [a, b] key = [c, d] := ⟨_, _, rfl⟩
    have hdec := teaDecipher_encipher key a b
    rw [henc] at hdec
    exact ⟨c, d, by rw [encipher, henc], by rw [decipher, hdec]⟩
  | xxtea =>
    have hlen : [a, b].length = 2 := rfl
    obtain ⟨block, hlen, henc, hdec⟩ := exists_xxteaEncipher key hlen (by decide) (by decide)
    obtain ⟨c, d, rfl⟩ := List.length_eq_two.1 hlen
    exact ⟨c, d, henc, hdec⟩

lemma length_magic : t.magic.length = 12 := by
  cases t with
  | unencrypted => exact absurd rfl ht
  | tea => rfl
  | xxtea => rfl

lemma fromStream_magic {before rest : Bytes} :
    EncryptionType.fromStream ⟨before ++ (t.magic ++ rest), before.length⟩ =
      (t, ⟨before ++ (t.magic ++ rest), before.length + 12⟩) := by
  rw [fromStream, Cursor.readExact_eq rfl (length_magic ht).symm]
  cases t with
  | unencrypted => exact absurd rfl ht
  | tea => rfl
  | xxtea => rfl

end EncryptionType

lemma wordsOf_bytesOf (a b : UInt32) : wordsOf (bytesOf [a, b]) = [a, b] := by
  have ha : ofLe (le 4 a.toNat) = a.toNat := ofLe_le 4 _ a.toNat_lt
  have hb : ofLe (le 4 b.toNat) = b.toNat := ofLe_le 4 _ b.toNat_lt
  have hall : (le 4 b.toNat).take 4 = le 4 b.toNat := List.take_of_length_le (by simp)
  simp [wordsOf, bytesOf, ha, hb, hall]

lemma bytesOf_wordsOf {bs : Bytes} (h : bs.length = 8) : bytesOf (wordsOf bs) = bs := by
  have hword {cs : Bytes} (hc : cs.length = 4) : le 4 (UInt32.ofNat (ofLe cs)).toNat = cs := by
    have hlt := ofLe_lt cs
    rw [hc] at hlt
    rw [UInt32.toNat_ofNat_of_lt' hlt, ← hc, le_ofLe]
  simp only [bytesOf, wordsOf, List.flatMap_cons, List.flatMap_nil, List.append_nil]
  have hall : (bs.drop 4).take 4 = bs.drop 4 := List.take_of_length_le (by simp [h])
  rw [hall, hword (by simp [h]), hword (by simp [h]), List.take_append_drop]

def EncryptionType.seal (t : EncryptionType) (key : CryptKey) (bs : Bytes) : Bytes :=
  match t.encipher key (wordsOf bs) with
  | .ok block => bytesOf block
  | .error _ => []

section Seal

variable {t : EncryptionType} (ht : t ≠ .unencrypted) (key : CryptKey)
include ht

lemma encipher_seal (bs : Bytes) : ∃ c d, t.encipher key (wordsOf bs) = .ok [c, d] ∧
    t.seal key bs = bytesOf [c, d] ∧ t.decipher key [c, d] = .ok (wordsOf bs) := by
  obtain ⟨c, d, henc, hdec⟩ := EncryptionType.exists_encipher ht key
    (UInt32.ofNat (ofLe (bs.take 4))) (UInt32.ofNat (ofLe ((bs.drop 4).take 4)))
  exact ⟨c, d, henc, by rw [EncryptionType.seal, wordsOf, henc], hdec⟩

lemma length_seal (bs : Bytes) : (t.seal key bs).length = 8 := by
  obtain ⟨c, d, -, hseal, -⟩ := encipher_seal ht key bs
  rw [hseal]
  simp [bytesOf]

/-- **A block that is read is the block that was written.** -/
lemma decipher_seal {bs : Bytes} (h : bs.length = 8) :
    ∃ block, t.decipher key (wordsOf (t.seal key bs)) = .ok block ∧ bytesOf block = bs := by
  obtain ⟨c, d, -, hseal, hdec⟩ := encipher_seal ht key bs
  refine ⟨wordsOf bs, ?_, bytesOf_wordsOf h⟩
  rw [hseal, wordsOf_bytesOf, hdec]

end Seal

/-! ### The stream -/

/-- Marker, size, the first `k` blocks of the content, and what comes after them. -/
def sealedStream (t : EncryptionType) (key : CryptKey) (before size : Bytes) (k : ℕ)
    (content tail : Bytes) : Bytes :=
  before ++ (t.magic ++ (size ++ (mapBlocks 8 (t.seal key) k content ++ tail)))

section Stream

variable {t : EncryptionType} {key : CryptKey} {before size content tail : Bytes} {k : ℕ}

lemma sealedStream_append (hk : 8 * k ≤ content.length) (more : Bytes) :
    sealedStream t key before size k (content ++ more) tail =
      sealedStream t key before size k content tail := by
  rw [sealedStream, mapBlocks_append hk]
  rfl

lemma sealedStream_succ :
    sealedStream t key before size (k + 1) content tail = sealedStream t key before size k content
      (t.seal key ((content.drop (8 * k)).take 8) ++ tail) := by
  rw [sealedStream, mapBlocks_succ, List.append_assoc]
  rfl

variable (ht : t ≠ .unencrypted)
include ht

lemma length_head (key : CryptKey) (before : Bytes) (hsize : size.length = 4)
    (hk : 8 * k ≤ content.length) :
    (before ++ (t.magic ++ (size ++ mapBlocks 8 (t.seal key) k content))).length =
      before.length + 16 + 8 * k := by
  have hblocks := length_mapBlocks (fun bs _ => length_seal ht key bs) hk
  simp only [List.length_append, EncryptionType.length_magic ht, hsize, hblocks]
  omega

lemma write_sealedStream (hsize : size.length = 4) (hk : 8 * k ≤ content.length) (bs : Bytes) :
    Cursor.write ⟨sealedStream t key before size k content tail, before.length + 16 + 8 * k⟩ bs =
      ⟨sealedStream t key before size k content (bs ++ tail.drop bs.length),
        before.length + 16 + 8 * k + bs.length⟩ := by
  have hassoc (x : Bytes) : sealedStream t key before size k content x =
      (before ++ (t.magic ++ (size ++ mapBlocks 8 (t.seal key) k content))) ++ x := by
    simp only [sealedStream, List.append_assoc]
  rw [hassoc, Cursor.write_eq (length_head ht key before hsize hk).symm, hassoc, List.append_assoc]

lemma write_size (hsize : size.length = 4) {size' : Bytes} (hsize' : size'.length = 4) :
    Cursor.write ⟨sealedStream t key before size k content tail, before.length + 12⟩ size' =
      ⟨sealedStream t key before size' k content tail, before.length + 16⟩ := by
  have hassoc (x : Bytes) : sealedStream t key before x k content tail =
      (before ++ t.magic) ++ (x ++ (mapBlocks 8 (t.seal key) k content ++ tail)) := by
    simp only [sealedStream, List.append_assoc]
  rw [hassoc, Cursor.write_over (by simp [EncryptionType.length_magic ht])
    (hsize.trans hsize'.symm),
    ← hassoc, hsize']

end Stream

/-! ### The writer -/

/-- The writer in the course of writing: the full blocks of the content are in the stream, with
room for the size before them, and the rest is in the buffer. -/
structure EncryptedWriter.Layout (t : EncryptionType) (key : CryptKey) (before content : Bytes)
    (w : EncryptedWriter) : Prop where
  type : w.encryptionType = t
  crypt : w.key = key
  buffer : w.buffer.length = 8
  pending : w.buffer.take (content.length % 8) = content.drop (8 * (content.length / 8))
  writePos : w.writePos = content.length
  sizePos : w.sizePos = before.length + 12
  base : ∃ size tail, size.length = 4 ∧
    w.base = ⟨sealedStream t key before size (content.length / 8) content tail,
      before.length + 16 + 8 * (content.length / 8)⟩

section Writer

variable {t : EncryptionType} (ht : t ≠ .unencrypted) {key : CryptKey} {before content : Bytes}
include ht

lemma EncryptedWriter.writeBlock_eq {w : EncryptedWriter} (htype : w.encryptionType = t)
    (hcrypt : w.key = key) {size tail : Bytes} {k : ℕ} (hsize : size.length = 4)
    (hk : 8 * k ≤ content.length) (hbase : w.base =
      ⟨sealedStream t key before size k content tail, before.length + 16 + 8 * k⟩) :
    w.writeBlock = .ok { w with
      base := ⟨sealedStream t key before size k content (t.seal key w.buffer ++ tail.drop 8),
        before.length + 16 + 8 * k + 8⟩ } := by
  obtain ⟨c, d, henc, hseal, -⟩ := encipher_seal ht key w.buffer
  have hwrite : (w.base.write (le 4 c.toNat)).write (le 4 d.toNat) =
      ⟨sealedStream t key before size k content (t.seal key w.buffer ++ tail.drop 8),
        before.length + 16 + 8 * k + 8⟩ := by
    rw [Cursor.write_write, hbase, write_sealedStream ht hsize hk, hseal]
    simp [bytesOf]
  rw [EncryptedWriter.writeBlock, htype, hcrypt, henc]
  simp only [Except.map, List.foldl_cons, List.foldl_nil, hwrite]

lemma EncryptedWriter.layout_new (key : CryptKey) {c : Cursor} (hpos : c.pos ≤ c.data.length) :
    (EncryptedWriter.new c t key).Layout t key (c.data.take c.pos) [] := by
  have hmagic := EncryptionType.length_magic ht
  have hbefore : (c.data.take c.pos).length = c.pos := by simp [hpos]
  have hbase : (EncryptedWriter.new c t key).base =
    ⟨sealedStream t key (c.data.take c.pos) (le 4 0) 0
      [] ((c.data.drop c.pos).drop 16), (c.data.take c.pos).length + 16 + 8 * 0⟩ := by
    show (c.write t.magic).write (le 4 0) = _
    have hc : c = ⟨c.data.take c.pos ++ c.data.drop c.pos, c.pos⟩ := by
      rw [List.take_append_drop]
    rw [Cursor.write_write]
    conv_lhs => rw [hc]
    rw [Cursor.write_eq hbefore.symm]
    simp [hmagic, hbefore, sealedStream, mapBlocks]
  refine ⟨rfl, rfl, by simp [EncryptedWriter.new], by simp, rfl, ?_, le 4 0, _, by simp, hbase⟩
  show c.pos + t.magic.length = _
  rw [hmagic, hbefore]

namespace EncryptedWriter.Layout

variable {w : EncryptedWriter} (h : w.Layout t key before content)
include h

omit ht in
lemma take_splice {chunk : Bytes} (hfits : content.length % 8 + chunk.length ≤ 8) :
    (splice w.buffer (content.length % 8) chunk).length = 8 ∧
      (splice w.buffer (content.length % 8) chunk).take (content.length % 8 + chunk.length) =
        (content ++ chunk).drop (8 * (content.length / 8)) := by
  have htake : (w.buffer.take (content.length % 8)).length = content.length % 8 := by
    rw [List.length_take, h.buffer]
    omega
  constructor
  · rw [splice, List.length_append, List.length_append, htake, List.length_drop, h.buffer]
    omega
  · rw [splice, List.take_append_of_le_length (by simp [htake]), h.pending,
      List.take_of_length_le (by rw [← h.pending, List.length_append, htake]),
      List.drop_append_of_le_length (by omega)]

/-- **One round of a write**: some bytes that fit into the buffer. -/
lemma step (chunk : Bytes) (hchunk : chunk ≠ []) (hfits : content.length % 8 + chunk.length ≤ 8) :
    let w₁ := { w with
      buffer := splice w.buffer (content.length % 8) chunk
      writePos := w.writePos + chunk.length }
    ∃ w', (if w₁.writePos % w₁.buffer.length = 0 then w₁.writeBlock else .ok w₁) = .ok w' ∧
      w'.Layout t key before (content ++ chunk) ∧ w'.baseSize = w.baseSize := by
  intro w₁
  obtain ⟨hlen, htake⟩ := h.take_splice hfits
  have hpos := List.length_pos_iff.2 hchunk
  have hwritePos : w₁.writePos = (content ++ chunk).length := by
    show w.writePos + chunk.length = _
    rw [h.writePos, List.length_append]
  have hmod : w₁.writePos % w₁.buffer.length = (content.length + chunk.length) % 8 := by
    rw [hwritePos, List.length_append, show w₁.buffer.length = 8 from hlen]
  obtain ⟨size, tail, hsize, hbase⟩ := h.base
  have hk : 8 * (content.length / 8) ≤ content.length := by omega
  by_cases hfull : content.length % 8 + chunk.length = 8
  · -- the block is full, and it is written
    have hdiv : (content ++ chunk).length / 8 = content.length / 8 + 1 := by
      rw [List.length_append]
      omega
    have hzero : (content ++ chunk).length % 8 = 0 := by
      rw [List.length_append]
      omega
    have hblock : w₁.buffer = ((content ++ chunk).drop (8 * (content.length / 8))).take 8 := by
      rw [← htake, hfull, List.take_take, Nat.min_self, List.take_of_length_le (by omega)]
    have hrun := EncryptedWriter.writeBlock_eq ht (w := w₁) h.type h.crypt hsize hk hbase
    rw [hblock, ← sealedStream_append hk chunk, ← sealedStream_succ] at hrun
    refine ⟨_, (if_pos (by rw [hmod]; omega)).trans hrun, ?_, rfl⟩
    refine ⟨h.type, h.crypt, hblock ▸ hlen, ?_, hwritePos, h.sizePos, size, tail.drop 8, hsize, ?_⟩
    · rw [hzero, List.take_zero, hdiv, List.drop_eq_nil_of_le]
      rw [List.length_append]
      omega
    · rw [hdiv]
      rfl
  · have hdiv : (content ++ chunk).length / 8 = content.length / 8 := by
      rw [List.length_append]
      omega
    have hrem : (content ++ chunk).length % 8 = content.length % 8 + chunk.length := by
      rw [List.length_append]
      omega
    refine ⟨w₁, if_neg (by rw [hmod]; omega), ?_, rfl⟩
    refine ⟨h.type, h.crypt, hlen, ?_, hwritePos, h.sizePos, size, tail, hsize, ?_⟩
    · rw [hrem, hdiv, ← htake]
    · rw [hdiv, sealedStream_append hk]
      exact hbase

lemma writeLoop (buf : Bytes)
    (n srcPos : ℕ) (hsrc : srcPos ≤ buf.length) (hn : buf.length ≤ srcPos + n) :
    ∃ w', EncryptedWriter.writeLoop buf n srcPos w = .ok (buf.length, w') ∧
      w'.Layout t key before (content ++ buf.drop srcPos) ∧ w'.baseSize = w.baseSize := by
  induction n generalizing w content srcPos with
  | zero =>
    obtain rfl : srcPos = buf.length := by omega
    exact ⟨w, rfl, by simpa using h, rfl⟩
  | succ n ih =>
    rw [EncryptedWriter.writeLoop]
    split
    · rename_i hlt
      simp only [h.buffer, h.writePos]
      have hmod := Nat.mod_lt content.length (show 0 < 8 by omega)
      obtain ⟨len, hlen⟩ :
        ∃ len, min (buf.length - srcPos) (8 - content.length % 8) = len := ⟨_, rfl⟩
      rw [hlen, if_neg (by omega)]
      have hchunk : ((buf.drop srcPos).take len).length = len := by
        rw [List.length_take, List.length_drop]
        omega
      obtain ⟨w', hstep, hw', hsize⟩ := h.step ht ((buf.drop srcPos).take len)
        (List.ne_nil_of_length_pos (by omega)) (by omega)
      obtain ⟨w'', hrun, hw'', hsize'⟩ := ih hw' (srcPos + len) (by omega) (by omega)
      simp only [hchunk, h.writePos] at hstep
      refine ⟨w'', ?_, ?_, hsize'.trans hsize⟩
      · rw [hstep]
        exact hrun
      · rw [List.append_assoc, ← List.drop_drop, List.take_append_drop] at hw''
        exact hw''
    · obtain rfl : srcPos = buf.length := by omega
      exact ⟨w, rfl, by simpa using h, rfl⟩

/-- **A write takes everything**, and the content grows by it. -/
lemma write
    (hsize : w.baseSize = content.length) (buf : Bytes) :
    ∃ w', w.write buf = .ok (buf.length, w') ∧ w'.Layout t key before (content ++ buf) ∧
      w'.baseSize = (content ++ buf).length := by
  obtain ⟨w', hrun, hw', hsize'⟩ := h.writeLoop ht buf buf.length 0 (Nat.zero_le _) (by omega)
  rw [EncryptedWriter.write, if_neg (h.type ▸ ht), hrun]
  rw [List.drop_zero] at hw'
  refine ⟨_, rfl, ⟨hw'.type, hw'.crypt, hw'.buffer, hw'.pending, hw'.writePos, hw'.sizePos,
    hw'.base⟩, ?_⟩
  show max w'.baseSize w'.writePos = _
  rw [hsize', hsize, hw'.writePos, List.length_append]
  omega

/-- **A flush completes the stream**, and more can be written after it. -/
lemma flush
    (hsize : w.baseSize = content.length) (hlen : content.length < 2 ^ 32) :
    w.flush.1 = .ok () ∧ w.flush.2.Layout t key before content ∧
      w.flush.2.baseSize = content.length ∧ ∃ pad tail, pad.length = 8 - content.length % 8 ∧
        w.flush.2.base.data = sealedStream t key before (le 4 content.length)
          (content.length / 8 + 1) (content ++ pad) tail := by
  obtain ⟨size, tail, hsize4, hbase⟩ := h.base
  have hk : 8 * (content.length / 8) ≤ content.length := by omega
  have hmod := Nat.mod_lt content.length (show 0 < 8 by omega)
  have hrun := EncryptedWriter.writeBlock_eq ht h.type h.crypt hsize4 hk hbase
  have hflush : w.flush = (.ok (), { w with base :=
      ⟨sealedStream t key before (le 4 content.length) (content.length / 8) content
        (t.seal key w.buffer ++ tail.drop 8),
        before.length + 16 + 8 * (content.length / 8)⟩ }) := by
    rw [EncryptedWriter.flush, if_neg (h.type ▸ ht)]
    simp only [hrun, hsize, if_pos hlen, Cursor.seek, h.sizePos,
      write_size ht hsize4 (length_le 4 _),
      hbase]
  rw [hflush]
  refine ⟨rfl, ⟨h.type, h.crypt, h.buffer, h.pending, h.writePos, h.sizePos, _, _, length_le 4 _,
    rfl⟩,
    hsize, w.buffer.drop (content.length % 8), tail.drop 8, by rw [List.length_drop, h.buffer], ?_⟩
  have hbuffer : ((content ++ w.buffer.drop (content.length % 8)).drop
      (8 * (content.length / 8))).take 8 = w.buffer := by
    rw [List.drop_append_of_le_length hk, ← h.pending, List.take_append_drop,
      List.take_of_length_le (by rw [h.buffer])]
  rw [sealedStream_succ, hbuffer, sealedStream_append hk]

end EncryptedWriter.Layout

/-- **What a series of calls leaves**: the stream holds what was written, in that order. -/
lemma EncryptedWriter.Layout.runs {w : EncryptedWriter} (h : w.Layout t key before content)
    (hsize : w.baseSize = content.length) {calls : List EncryptedWriter.Call}
    (hlen : (content ++ calls.flatMap EncryptedWriter.Call.written).length < 2 ^ 32) :
    ∃ w', calls.foldlM EncryptedWriter.run w = .ok w' ∧
      w'.Layout t key before (content ++ calls.flatMap EncryptedWriter.Call.written) ∧
      w'.baseSize = (content ++ calls.flatMap EncryptedWriter.Call.written).length := by
  induction calls generalizing w content with
  | nil => exact ⟨w, rfl, by simpa using h, by simpa using hsize⟩
  | cons call calls ih =>
    rw [List.flatMap_cons, ← List.append_assoc] at hlen ⊢
    cases call with
    | write buf =>
      obtain ⟨w₁, hrun, hw₁, hsize₁⟩ := h.write ht hsize buf
      obtain ⟨w', hruns, hw'⟩ := ih hw₁ hsize₁ hlen
      refine ⟨w', ?_, hw'⟩
      rw [List.foldlM_cons]
      exact bind_eq_ok.2 ⟨w₁, map_eq_ok.2 ⟨_, hrun, rfl⟩, hruns⟩
    | flush =>
      have hcontent : content ++ EncryptedWriter.Call.flush.written = content := List.append_nil _
      rw [hcontent] at hlen ⊢
      obtain ⟨hok, hw₁, hsize₁, -⟩ := h.flush ht hsize (by rw [List.length_append] at hlen; omega)
      obtain ⟨w', hruns, hw'⟩ := ih hw₁ hsize₁ hlen
      refine ⟨w', ?_, hw'⟩
      rw [List.foldlM_cons]
      exact bind_eq_ok.2 ⟨w.flush.2, map_eq_ok.2 ⟨(), hok, rfl⟩, hruns⟩

end Writer

/-! ### The reader -/

/-- The reader in the course of reading: `readPos` bytes of the content have been read, and
where this is inside a block, the block is in the buffer. -/
structure EncryptedReader.Layout (t : EncryptionType) (key : CryptKey) (before content pad : Bytes)
    (r : EncryptedReader) : Prop where
  type : r.encryptionType = t
  crypt : r.key = key
  buffer : r.buffer.length = 8
  baseSize : r.baseSize = content.length
  readPos : r.readPos ≤ content.length
  block : r.readPos % 8 ≠ 0 → r.buffer = ((content ++ pad).drop (8 * (r.readPos / 8))).take 8
  base : ∃ size tail, size.length = 4 ∧
    r.base = ⟨sealedStream t key before size (content.length / 8 + 1) (content ++ pad) tail,
      before.length + 16 + 8 * ((r.readPos + 7) / 8)⟩

section Reader

variable {t : EncryptionType} (ht : t ≠ .unencrypted) {key : CryptKey} {before content pad : Bytes}
  (hpad : pad.length = 8 - content.length % 8)
include ht hpad

namespace EncryptedReader.Layout

variable {r : EncryptedReader} (h : r.Layout t key before content pad)
include h

lemma nextBlock
    (hstart : r.readPos % 8 = 0) (hmore : r.readPos < content.length) :
    r.nextBlock = .ok { r with
      base := { r.base with pos := r.base.pos + 8 }
      buffer := ((content ++ pad).drop (8 * (r.readPos / 8))).take 8 } := by
  obtain ⟨size, tail, hsize, hbase⟩ := h.base
  have hmod := Nat.mod_lt content.length (show 0 < 8 by omega)
  have hlen : (((content ++ pad).drop (8 * (r.readPos / 8))).take 8).length = 8 := by
    rw [List.length_take, List.length_drop, List.length_append]
    omega
  obtain ⟨after, hsplit⟩ := mapBlocks_split (n := 8) (f := t.seal key)
    (show r.readPos / 8 < content.length / 8 + 1 by omega) (content ++ pad)
  have hread : r.base.readExact 8 = .ok (t.seal key
      (((content ++ pad).drop (8 * (r.readPos / 8))).take 8),
      { r.base with pos := r.base.pos + 8 }) := by
    have hdata : sealedStream t key before size (content.length / 8 + 1) (content ++ pad) tail =
        (before ++ (t.magic ++
          (size ++ mapBlocks 8 (t.seal key) (r.readPos / 8) (content ++ pad)))) ++
          (t.seal key (((content ++ pad).drop (8 * (r.readPos / 8))).take 8) ++
          (after ++ tail)) := by
      rw [sealedStream, hsplit]
      simp only [List.append_assoc]
    have hhead := length_head ht key before hsize
      (show 8 * (r.readPos / 8) ≤ (content ++ pad).length by rw [List.length_append]; omega)
    rw [hbase, hdata]
    exact Cursor.readExact_eq (by rw [hhead]; omega) (length_seal ht key _).symm
  obtain ⟨block, hdec, hbytes⟩ := decipher_seal ht key hlen
  rw [EncryptedReader.nextBlock, hread]
  simp only [Except.bind, h.type, h.crypt, hdec, Except.map, hbytes]

/-- **One round of a read**: the bytes up to the end of the block or less. -/
lemma step (len : ℕ) (hlen : 0 < len)
    (hblock : len ≤ 8 - r.readPos % 8) (hsize : len ≤ content.length - r.readPos) :
    ∃ r', (if r.readPos % 8 = 0 then r.nextBlock else .ok r) = .ok r' ∧
      r'.readPos = r.readPos ∧
      (r'.buffer.drop (r.readPos % 8)).take len = (content.drop r.readPos).take len ∧
      EncryptedReader.Layout t key before content pad { r' with readPos := r'.readPos + len } := by
  have hmod := Nat.mod_lt content.length (show 0 < 8 by omega)
  -- once the block is in the buffer, it does not matter how it came there
  have hbytes :
      ((((content ++ pad).drop (8 * (r.readPos / 8))).take 8).drop (r.readPos % 8)).take len =
      (content.drop r.readPos).take len := by
    rw [List.drop_take, List.take_take, List.drop_drop, Nat.min_eq_left (by omega),
      show 8 * (r.readPos / 8) + r.readPos % 8 = r.readPos by omega,
      List.drop_append_of_le_length h.readPos,
      List.take_append_of_le_length (by rw [List.length_drop]; omega)]
  have hblockLen : (((content ++ pad).drop (8 * (r.readPos / 8))).take 8).length = 8 := by
    rw [List.length_take, List.length_drop, List.length_append]
    omega
  obtain ⟨size, tail, hsize4, hbase⟩ := h.base
  by_cases hstart : r.readPos % 8 = 0
  · refine ⟨_, (if_pos hstart).trans (h.nextBlock ht hpad hstart (by omega)), rfl, hbytes, ?_⟩
    refine ⟨h.type, h.crypt, hblockLen, h.baseSize, ?_, fun hinside => ?_, size, tail, hsize4, ?_⟩
    · show r.readPos + len ≤ _
      omega
    · show _ = ((content ++ pad).drop (8 * ((r.readPos + len) / 8))).take 8
      have hinside' : (r.readPos + len) % 8 ≠ 0 := hinside
      rw [show (r.readPos + len) / 8 = r.readPos / 8 by omega]
    · show ({ r.base with pos := r.base.pos + 8 } : Cursor) =
        ⟨_, before.length + 16 + 8 * ((r.readPos + len + 7) / 8)⟩
      rw [hbase]
      simp only [Cursor.mk.injEq, true_and]
      omega
  · refine ⟨r, if_neg hstart, rfl, h.block hstart ▸ hbytes, ?_⟩
    refine ⟨h.type, h.crypt, h.buffer, h.baseSize, ?_, fun hinside => ?_, size, tail, hsize4, ?_⟩
    · show r.readPos + len ≤ _
      omega
    · show r.buffer = ((content ++ pad).drop (8 * ((r.readPos + len) / 8))).take 8
      have hinside' : (r.readPos + len) % 8 ≠ 0 := hinside
      rw [show (r.readPos + len) / 8 = r.readPos / 8 by omega]
      exact h.block hstart
    · show r.base = ⟨_, before.length + 16 + 8 * ((r.readPos + len + 7) / 8)⟩
      rw [hbase]
      simp only [Cursor.mk.injEq, true_and]
      omega

lemma readLoop (len n : ℕ) (dest : Bytes) (hn : len ≤ dest.length + n) :
    ∃ r', EncryptedReader.readLoop len n dest r =
        .ok (dest ++ (content.drop r.readPos).take (len - dest.length), r') ∧
      r'.Layout t key before content pad ∧
      r'.readPos = min content.length (r.readPos + (len - dest.length)) := by
  have hread := h.readPos
  induction n generalizing r dest with
  | zero =>
    have hzero : len - dest.length = 0 := by omega
    exact ⟨r, by rw [hzero]; simp [EncryptedReader.readLoop], h, by omega⟩
  | succ n ih =>
    rw [EncryptedReader.readLoop]
    split
    · rename_i hlt
      simp only [h.buffer, h.baseSize]
      obtain ⟨copyLen, hcopy⟩ : ∃ copyLen, min (min (len - dest.length) (8 - r.readPos % 8))
        (content.length - r.readPos) = copyLen := ⟨_, rfl⟩
      rw [hcopy]
      by_cases hzero : copyLen = 0
      · have hend : r.readPos = content.length := by omega
        rw [if_pos hzero]
        refine ⟨r, ?_, h, by omega⟩
        rw [hend, List.drop_length, List.take_nil, List.append_nil]
      · rw [if_neg hzero]
        obtain ⟨r₁, hrun, hpos, hbytes, h₁⟩ := h.step ht hpad copyLen (by omega) (by omega)
          (by omega)
        rw [hrun]
        simp only [Except.bind, hbytes, hpos] at h₁ ⊢
        have hcopied : ((content.drop r.readPos).take copyLen).length = copyLen := by
          rw [List.length_take, List.length_drop]
          omega
        obtain ⟨r', hrest, h', hpos'⟩ := ih h₁ (dest ++ (content.drop r.readPos).take copyLen)
          (by rw [List.length_append, hcopied]; omega) h₁.readPos
        refine ⟨r', ?_, h', ?_⟩
        · rw [hrest, List.append_assoc, List.length_append, hcopied]
          congr 3
          rw [← List.drop_drop,
            show len - dest.length = copyLen + (len - (dest.length + copyLen)) by omega,
            List.take_add]
        · rw [hpos', List.length_append, hcopied]
          show min _ (r.readPos + copyLen + _) = _
          omega
    · exact ⟨r, by rw [show len - dest.length = 0 by omega]; simp, h, by omega⟩

/-- **A read gives the next bytes of the content**, as many as are asked for and there are. -/
lemma read (len : ℕ) :
    ∃ r', r.read len = .ok ((content.drop r.readPos).take len, r') ∧
      r'.Layout t key before content pad ∧ r'.readPos = min content.length (r.readPos + len) := by
  rw [EncryptedReader.read, if_neg (h.type ▸ ht)]
  obtain ⟨r', hrun, h', hpos⟩ := h.readLoop ht hpad len len []
    (by rw [List.length_nil]; omega)
  exact ⟨r', by simpa using hrun, h', by simpa using hpos⟩

lemma reads (lens : List ℕ) :
    r.reads lens = .ok ((content.drop r.readPos).take lens.sum) := by
  induction lens generalizing r with
  | nil => rfl
  | cons len lens ih =>
    obtain ⟨r', hrun, h', hpos⟩ := h.read ht hpad len
    have hread := h.readPos
    rw [EncryptedReader.reads, hrun]
    simp only [Except.bind, ih h', Except.map, List.sum_cons, List.take_add, List.drop_drop, hpos]
    congr 2
    -- past the end there is nothing more
    rcases Nat.le_total (r.readPos + len) content.length with hle | hle
    · rw [Nat.min_eq_right hle]
    · rw [Nat.min_eq_left hle, List.drop_length, List.drop_eq_nil_of_le hle]

end EncryptedReader.Layout

omit hpad in
lemma EncryptedReader.layout_new {tail : Bytes} (hlen : content.length < 2 ^ 32) :
    ∃ r, EncryptedReader.new ⟨sealedStream t key before (le 4 content.length)
        (content.length / 8 + 1) (content ++ pad) tail, before.length⟩ key = .ok r ∧
      r.Layout t key before content pad ∧ r.readPos = 0 := by
  have hmagic := EncryptionType.length_magic ht
  rw [EncryptedReader.new, sealedStream, EncryptionType.fromStream_magic ht]
  simp only [ne_eq, ht, not_false_eq_true, if_true]
  rw [← List.append_assoc, Cursor.readExact_eq (by rw [List.length_append, hmagic])
    (length_le 4 _).symm]
  refine ⟨_, rfl, ⟨rfl, rfl, by simp, ofLe_le 4 _ hlen, Nat.zero_le _, fun h => absurd rfl h, _,
    tail,
    length_le 4 content.length, ?_⟩, rfl⟩
  rw [sealedStream, List.append_assoc]
  simp

end Reader

/-! ### What is written is read back -/

/-- A reader on the stream finds how it is encrypted, and reads with buffers of any sizes give
the bytes of the content from its start on, until there are no more. -/
def ReadsBack (t : EncryptionType) (key : CryptKey) (stream : Cursor) (content : Bytes) : Prop :=
  ∃ r, EncryptedReader.new stream key = .ok r ∧ r.encryptionType = t ∧
    ∀ lens : List ℕ, r.reads lens = .ok (content.take lens.sum)

section RoundTrip

variable {t : EncryptionType} (ht : t ≠ .unencrypted) {key : CryptKey} {before content : Bytes}
  {w : EncryptedWriter}
include ht

namespace EncryptedWriter.Layout

lemma readsBack (h : w.Layout t key before content) (hsize : w.baseSize = content.length)
    (hlen : content.length < 2 ^ 32) :
    ReadsBack t key ⟨w.intoInner.data, before.length⟩ content := by
  obtain ⟨-, -, -, pad, tail, hpad, hdata⟩ := h.flush ht hsize hlen
  obtain ⟨r, hnew, hr, hpos⟩ := EncryptedReader.layout_new ht hlen
  rw [EncryptedWriter.intoInner, hdata]
  refine ⟨r, hnew, hr.type, fun lens => ?_⟩
  rw [hr.reads ht hpad, hpos, List.drop_zero]

/-- `write_all` is one `write`, because a `write` takes all it is given. -/
lemma writeAll (h : w.Layout t key before content) (hsize : w.baseSize = content.length)
    (buf : Bytes) :
    ∃ w', w.writeAll buf.length buf = .ok w' ∧ w'.Layout t key before (content ++ buf) ∧
      w'.baseSize = (content ++ buf).length := by
  cases buf with
  | nil => exact ⟨w, rfl, by simpa using h, by simpa using hsize⟩
  | cons b bs =>
    obtain ⟨w', hrun, hw'⟩ := h.write ht hsize (b :: bs)
    refine ⟨w', ?_, hw'⟩
    rw [List.length_cons, EncryptedWriter.writeAll, if_neg (List.cons_ne_nil b bs), hrun]
    simp only [Except.bind, List.length_cons, Nat.succ_ne_zero, if_false, List.drop_succ_cons,
      List.drop_length]
    cases bs.length <;> rfl

lemma copies (h : w.Layout t key before content) (hsize : w.baseSize = content.length)
    (pieces : List Bytes) :
    ∃ w', pieces.foldlM (fun (w : EncryptedWriter) piece => w.writeAll piece.length piece) w =
        .ok w' ∧
      w'.Layout t key before (content ++ pieces.flatten) ∧
      w'.baseSize = (content ++ pieces.flatten).length := by
  induction pieces generalizing w content with
  | nil => exact ⟨w, rfl, by simpa using h, by simpa using hsize⟩
  | cons piece pieces ih =>
    obtain ⟨w₁, hrun, hw₁, hsize₁⟩ := h.writeAll ht hsize piece
    obtain ⟨w', hruns, hw'⟩ := ih hw₁ hsize₁
    rw [List.flatten_cons, ← List.append_assoc]
    refine ⟨w', ?_, hw'⟩
    rw [List.foldlM_cons]
    exact bind_eq_ok.2 ⟨w₁, hrun, hruns⟩

end EncryptedWriter.Layout

lemma ReadsBack.encryptFile_eq {file : Bytes} (h : ReadsBack t key ⟨file, 0⟩ content)
    (pieces : Bytes → List Bytes) (t' : EncryptionType) (key' : CryptKey) :
    encryptFile pieces t' key' file = .ok file := by
  obtain ⟨r, hnew, htype, -⟩ := h
  refine if_neg fun hplain => ht ?_
  simp only [EncryptedReader.new, hplain, ne_eq, not_true_eq_false, if_false] at hnew
  cases hnew
  exact htype.symm

lemma exists_encryptFile (key : CryptKey) {pieces : Bytes → List Bytes}
    (hpieces : (pieces content).flatten = content) (hlen : content.length < 2 ^ 32)
    (hplain : (EncryptionType.fromStream ⟨content, 0⟩).1 = .unencrypted) :
    ∃ file, encryptFile pieces t key content = .ok file ∧
      ReadsBack t key ⟨file, 0⟩ content := by
  have hnew : (EncryptedWriter.new ⟨[], 0⟩ t key).Layout t key [] [] :=
    EncryptedWriter.layout_new ht key (c := ⟨[], 0⟩) (Nat.le_refl 0)
  obtain ⟨w, hrun, hw, hsize⟩ := hnew.copies ht rfl (pieces content)
  rw [List.nil_append, hpieces] at hw hsize
  -- the file is closed after it was flushed, which flushes it again
  obtain ⟨hok, hw', hsize', -⟩ := hw.flush ht hsize hlen
  refine ⟨w.flush.2.intoInner.data, ?_, hw'.readsBack ht hsize' hlen⟩
  rw [encryptFile, if_pos hplain, hrun]
  exact map_eq_ok.2 ⟨(), hok, rfl⟩

end RoundTrip

/-- **What is written encrypted is read back**: over any stream, in any pieces and with flushes
anywhere, with either cipher and any key. So a file is encrypted without loss, and once only. -/
theorem encrypted_readsBack {t : EncryptionType} (ht : t ≠ .unencrypted) (key : CryptKey) :
    (∀ (start : Cursor) (calls : List EncryptedWriter.Call), start.pos ≤ start.data.length →
      (calls.flatMap EncryptedWriter.Call.written).length < 2 ^ 32 →
      ∃ w, calls.foldlM EncryptedWriter.run (EncryptedWriter.new start t key) = .ok w ∧
        ReadsBack t key ⟨w.intoInner.data, start.pos⟩
          (calls.flatMap EncryptedWriter.Call.written)) ∧
    ∀ (pieces : Bytes → List Bytes) (content : Bytes), (pieces content).flatten = content →
      content.length < 2 ^ 32 → (EncryptionType.fromStream ⟨content, 0⟩).1 = .unencrypted →
      ∃ file, encryptFile pieces t key content = .ok file ∧ ReadsBack t key ⟨file, 0⟩ content ∧
        ∀ pieces' t' key', encryptFile pieces' t' key' file = .ok file := by
  refine ⟨fun start calls hpos hlen => ?_, fun pieces content hpieces hlen hplain => ?_⟩
  · have hnew := EncryptedWriter.layout_new ht key hpos
    obtain ⟨w, hrun, hw, hsize⟩ := hnew.runs ht rfl (by rwa [List.nil_append])
    rw [List.nil_append] at hw hsize
    have hbefore : (start.data.take start.pos).length = start.pos := by
      rw [List.length_take]
      omega
    exact ⟨w, hrun, hbefore ▸ hw.readsBack ht hsize hlen⟩
  · obtain ⟨file, hfile, hback⟩ := exists_encryptFile ht key hpieces hlen hplain
    exact ⟨file, hfile, hback, hback.encryptFile_eq ht⟩

/-- A short script, written to a new stream in two pieces, and encrypted as a file. -/
theorem script_readsBack :
    (∃ w, [EncryptedWriter.Call.write [83, 84, 65], .flush, .write [84, 69, 68, 69, 83, 67]].foldlM
        EncryptedWriter.run (EncryptedWriter.new ⟨[], 0⟩ .xxtea fun _ => 1) = .ok w ∧
      ReadsBack .xxtea (fun _ => 1) ⟨w.intoInner.data, 0⟩ [83, 84, 65, 84, 69, 68, 69, 83, 67]) ∧
    ∃ file, encryptFile (fun content => [content]) .xxtea (fun _ => 1)
        [83, 84, 65, 84, 69, 68, 69, 83, 67] = .ok file ∧
      ReadsBack .xxtea (fun _ => 1) ⟨file, 0⟩ [83, 84, 65, 84, 69, 68, 69, 83, 67] ∧
      ∀ pieces' t' key', encryptFile pieces' t' key' file = .ok file := by
  obtain ⟨hruns, hfile⟩ := encrypted_readsBack (t := .xxtea) (by decide) fun _ => 1
  exact ⟨hruns ⟨[], 0⟩ [.write [83, 84, 65], .flush, .write [84, 69, 68, 69, 83, 67]]
      (by decide) (by decide),
    hfile (fun content => [content]) _ rfl (by decide) (by decide)⟩

end Moulars.Plasma
