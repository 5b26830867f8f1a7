import Moulars.Lib.AsyncRead
import Moulars.Hashes
import Moulars.Vault.Node

/-!
The parts client messages are made of, read from a connection as their bytes come in.
-/

namespace Moulars.Net

open Lib.Wire Lib.Text Lib.Clients Lib.AsyncRead
open Lib.AsyncRead.AsyncReader Hashes Vault

/-- `LittleEndian::read_u16_into`: two bytes a unit. -/
def unitsOf : Bytes → List UInt16
  | a :: b :: rest => UInt16.ofNat (ofLe [a, b]) :: unitsOf rest
  | _ => []

def readUtf16Str : AsyncReader String := do
  let length ← u16
  let readBuf ← exact (length.toNat * 2)
  pure (String.ofList (decodeUtf16Lossy (unitsOf readBuf.1)))

def uuidFromBytesLe (bs : Bytes) : Uuid where
  d1 := UInt32.ofNat (ofLe (bs.take 4))
  d2 := UInt16.ofNat (ofLe ((bs.drop 4).take 2))
  d3 := UInt16.ofNat (ofLe ((bs.drop 6).take 2))
  d4 := UInt64.ofNat (ofLe ((bs.drop 8).take 8))

def readUuid : AsyncReader Uuid := do
  let buffer ← exact 16
  pure (uuidFromBytesLe buffer.1)

def readSizedBuffer (maxSize : UInt32) : AsyncReader Bytes := do
  let dataSize ← u32
  if dataSize > maxSize then
    .fail (.error
      s!"Message payload too large ({dataSize.toNat} bytes, limit {maxSize.toNat})")
  else do
    let buffer ← exact dataSize.toNat
    pure buffer.1

def readShaDigest : AsyncReader ShaDigest := do
  let data ← exact 20
  pure ⟨data.1, data.2⟩

/-! ### Writing -/

def writeUtf16Str (value : String) : Out :=
  let valueUtf16 := encodeUtf16 value.toList
  if valueUtf16.length < 2 ^ 16 then Out.put (le 2 valueUtf16.length ++ unitBytes valueUtf16)
  else Out.fail (.error "UTF-16 string too long for stream")

def writeSizedBuffer (buffer : Bytes) : Out :=
  if buffer.length < 2 ^ 32 then Out.put (le 4 buffer.length ++ buffer)
  else Out.fail (.error s!"Buffer too large for 32-bit stream ({buffer.length} bytes)")

/-! ### What is written is read back -/

lemma unitsOf_unitBytes (us : List UInt16) : unitsOf (unitBytes us) = us := by
  induction us with
  | nil => rfl
  | cons u us ih =>
    have hu : UInt16.ofNat (ofLe (le 2 u.toNat)) = u := by
      rw [ofLe_le 2 u.toNat (by simpa using u.toNat_lt), UInt16.ofNat_toNat]
    show UInt16.ofNat (ofLe (le 2 u.toNat)) :: unitsOf (unitBytes us) = u :: us
    rw [hu, ih]

lemma length_unitBytes (us : List UInt16) : (unitBytes us).length = us.length * 2 := by
  induction us with
  | nil => rfl
  | cons u us ih =>
    have hcons : unitBytes (u :: us) = le 2 u.toNat ++ unitBytes us := rfl
    rw [hcons, List.length_append, length_le, ih, List.length_cons]
    omega

lemma readsBack_utf16Str (value : String) :
    ReadsBack readUtf16Str (writeUtf16Str value) value := by
  intro b h
  unfold writeUtf16Str at h
  dsimp only at h
  split at h
  · rename_i hlen
    cases h
    have hn : (UInt16.ofNat (encodeUtf16 value.toList).length).toNat =
        (encodeUtf16 value.toList).length := UInt16.toNat_ofNat_of_lt' hlen
    have hsize := reads_u16 (UInt16.ofNat (encodeUtf16 value.toList).length)
    rw [hn] at hsize
    refine reads_bind hsize ?_
    rw [hn]
    have hbuf := reads_bind_pure
      (f := fun buf : Chunk _ => String.ofList (decodeUtf16Lossy (unitsOf buf.1)))
      (reads_exact ⟨unitBytes (encodeUtf16 value.toList), length_unitBytes _⟩)
    simpa only [unitsOf_unitBytes, decodeUtf16Lossy_encodeUtf16, String.ofList_toList] using hbuf
  · cases h

lemma readsBack_sizedBuffer (buffer : Bytes) :
    ReadsBack (readSizedBuffer 0xFFFFFFFF) (writeSizedBuffer buffer) buffer := by
  intro b h
  unfold writeSizedBuffer at h
  split at h
  · rename_i hlen
    cases h
    have hn : (UInt32.ofNat buffer.length).toNat = buffer.length :=
      UInt32.toNat_ofNat_of_lt' hlen
    have hsize := reads_u32 (UInt32.ofNat buffer.length)
    rw [hn] at hsize
    refine reads_bind hsize ?_
    have hle : ¬ UInt32.ofNat buffer.length > 0xFFFFFFFF := by
      rw [gt_iff_lt, UInt32.lt_iff_toNat_lt, hn]
      have hmax : (0xFFFFFFFF : UInt32).toNat = 2 ^ 32 - 1 := by decide
      omega
    rw [if_neg hle]
    exact reads_bind_pure (f := fun buf : Chunk _ => buf.1) (reads_exact ⟨buffer, hn.symm⟩)
  · cases h

lemma uuidFromBytesLe_toBytesLe (u : Uuid) : uuidFromBytesLe u.toBytesLe = u := by
  obtain ⟨d1, d2, d3, d4⟩ := u
  have h1 : ofLe (le 4 d1.toNat) = d1.toNat := ofLe_le 4 _ (by simpa using d1.toNat_lt)
  have h2 : ofLe (le 2 d2.toNat) = d2.toNat := ofLe_le 2 _ (by simpa using d2.toNat_lt)
  have h3 : ofLe (le 2 d3.toNat) = d3.toNat := ofLe_le 2 _ (by simpa using d3.toNat_lt)
  have h4 : ofLe (le 8 d4.toNat) = d4.toNat := ofLe_le 8 _ (by simpa using d4.toNat_lt)
  show Uuid.mk (UInt32.ofNat (ofLe (le 4 d1.toNat))) (UInt16.ofNat (ofLe (le 2 d2.toNat)))
    (UInt16.ofNat (ofLe (le 2 d3.toNat))) (UInt64.ofNat (ofLe (le 8 d4.toNat))) = _
  rw [h1, h2, h3, h4, UInt32.ofNat_toNat, UInt16.ofNat_toNat, UInt16.ofNat_toNat,
    UInt64.ofNat_toNat]

lemma readsBack_uuid (u : Uuid) : ReadsBack readUuid u.streamWrite u := by
  have hlen : u.toBytesLe.length = 16 := by simp [Uuid.toBytesLe]
  have hread := reads_bind_pure (f := fun buffer : Chunk 16 => uuidFromBytesLe buffer.1)
    (reads_exact ⟨u.toBytesLe, hlen⟩)
  rw [uuidFromBytesLe_toBytesLe] at hread
  exact .put hread

end Moulars.Net
