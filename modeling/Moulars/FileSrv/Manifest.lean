import Moulars.Hashes

/-!
Manifests of the file server on the wire.

A manifest is a number of entries and a buffer with their texts: every field is UTF-16 and ends
in a nul, hashes are hexadecimal digits, and numbers are two units, high half first.
-/

namespace Moulars.FileSrv

open Lib.Wire Lib.Text Hashes

structure Md5Hash where
  data : Bytes
  size : data.length = 16
  deriving DecidableEq

def Md5Hash.zero : Md5Hash := ⟨List.replicate 16 0, rfl⟩

structure FileInfo where
  clientPath : String
  downloadPath : String
  fileHash : Md5Hash
  downloadHash : Md5Hash
  fileSize : UInt32
  downloadSize : UInt32
  flags : UInt32
  updated : Bool
  deleted : Bool
  deriving DecidableEq

structure Manifest where
  files : List FileInfo
  deriving DecidableEq

def hexLower (bs : Bytes) : String :=
  String.ofList (bs.flatMap fun b =>
    [ShaDigest.hexDigit (b.toNat / 16), ShaDigest.hexDigit (b.toNat % 16)])

/-- `HEXLOWER_PERMISSIVE`: the bytes of a text of digits, or what is wrong with it. -/
structure HexPermissive where
  decode : Bytes → Except String Bytes
  decode_hexLower : ∀ bs, decode (encodeUtf8 (hexLower bs).toList) = .ok bs

def hexValue (b : UInt8) : Option ℕ :=
  if 48 ≤ b.toNat ∧ b.toNat ≤ 57 then some (b.toNat - 48)
  else if 97 ≤ b.toNat ∧ b.toNat ≤ 102 then some (b.toNat - 87)
  else if 65 ≤ b.toNat ∧ b.toNat ≤ 70 then some (b.toNat - 55)
  else none

def hexPairs : Bytes → Except String Bytes
  | [] => .ok []
  | [_] => .error "invalid length"
  | a :: b :: s => match hexValue a, hexValue b with
    | some high, some low => (hexPairs s).map fun bs => UInt8.ofNat (16 * high + low) :: bs
    | _, _ => .error "invalid symbol"

lemma hexPairs_hexLower (bs : Bytes) : hexPairs (encodeUtf8 (hexLower bs).toList) = .ok bs := by
  have hdigit : ∀ n < 16, ∃ x, encodeUtf8 [ShaDigest.hexDigit n] = [x] ∧ hexValue x = some n := by
    intro n hn
    refine ⟨UInt8.ofNat (if n < 10 then 48 + n else 87 + n), ?_⟩
    revert n
    decide
  rw [hexLower, String.toList_ofList]
  induction bs with
  | nil => rfl
  | cons b bs ih =>
    have hb := b.toNat_lt
    obtain ⟨x, hx, hvx⟩ := hdigit (b.toNat / 16) (by omega)
    obtain ⟨y, hy, hvy⟩ := hdigit (b.toNat % 16) (by omega)
    have hcons : encodeUtf8 ((b :: bs).flatMap fun b =>
        [ShaDigest.hexDigit (b.toNat / 16), ShaDigest.hexDigit (b.toNat % 16)]) =
        x :: y :: encodeUtf8 (bs.flatMap fun b =>
          [ShaDigest.hexDigit (b.toNat / 16), ShaDigest.hexDigit (b.toNat % 16)]) := by
      simp only [encodeUtf8, List.flatMap_cons, List.flatMap_nil, List.append_nil] at hx hy ⊢
      simp only [List.flatMap_append, List.flatMap_cons, List.flatMap_nil, List.append_nil, hx, hy]
      rfl
    rw [hcons, hexPairs]
    simp only [hvx, hvy, ih, Except.map, Nat.div_add_mod, UInt8.ofNat_toNat]

/-- A stand-in with which the model can be evaluated. -/
def HexPermissive.plain : HexPermissive := ⟨hexPairs, hexPairs_hexLower⟩

/-! ### Fields -/

def readUtf16zText : Reader String := do
  let buffer ← unitsZ
  pure (String.ofList (decodeUtf16Lossy buffer))

def readUtf16zMd5Hash (hex : HexPermissive) : Reader Md5Hash := do
  let buffer ← units 32
  let nul ← Reader.u16
  if nul ≠ 0 then Reader.fail (.error "MD5 hash was not nul-terminated")
  else match hex.decode (encodeUtf8 (decodeUtf16Lossy buffer)) with
    | .error err => Reader.fail (.error s!"Invalid hex literal: {err}")
    | .ok result =>
      if h : result.length = 16 then pure ⟨result, h⟩
      else Reader.fail (.error "Invalid MD5 hash length")

def readUtf16zU32 : Reader UInt32 := do
  let high ← Reader.u16
  let low ← Reader.u16
  let nul ← Reader.u16
  if nul ≠ 0 then Reader.fail (.error "uint32 value was not nul-terminated")
  else pure (high.toUInt32 <<< 16 ||| low.toUInt32)

def writeUtf16zText (value : String) : Out :=
  Out.each Out.u16 (encodeUtf16 value.toList) ++ Out.u16 0

def writeUtf16zMd5Hash (value : Md5Hash) : Out :=
  Out.each Out.u16 (encodeUtf16 (hexLower value.data).toList) ++ Out.u16 0

def writeUtf16zU32 (value : UInt32) : Out :=
  Out.u16 (value >>> 16).toUInt16 ++ (Out.u16 (value &&& 0xFFFF).toUInt16 ++ Out.u16 0)

/-! ### Entries -/

def FileInfo.streamRead (hex : HexPermissive) : Reader FileInfo := do
  let clientPath ← readUtf16zText
  let downloadPath ← readUtf16zText
  let fileHash ← readUtf16zMd5Hash hex
  let downloadHash ← readUtf16zMd5Hash hex
  let fileSize ← readUtf16zU32
  let downloadSize ← readUtf16zU32
  let flags ← readUtf16zU32
  pure ⟨clientPath, downloadPath, fileHash, downloadHash, fileSize, downloadSize, flags, false,
    false⟩

def FileInfo.streamWrite (f : FileInfo) : Out :=
  if f.deleted then Out.fail (.panic "assertion failed: !self.deleted")
  else writeUtf16zText f.clientPath ++ (writeUtf16zText f.downloadPath ++
    (writeUtf16zMd5Hash f.fileHash ++ (writeUtf16zMd5Hash f.downloadHash ++
      (writeUtf16zU32 f.fileSize ++ (writeUtf16zU32 f.downloadSize ++ writeUtf16zU32 f.flags)))))

/-! ### Manifests -/

/-- The buffer of a manifest, after the number of its units. -/
def writeBuffer (entries : Out) : Out :=
  entries.bind fun fileBuf =>
    if fileBuf.length % 2 ≠ 0 then Out.fail (.panic "assertion `left == right` failed")
    else if fileBuf.length / 2 < 2 ^ 32 then Out.put (le 4 (fileBuf.length / 2) ++ fileBuf)
    else Out.fail (.error "Manifest entry too large for stream")

/-- A nul unit, after the entries. -/
def readEnd : Reader Unit := do
  let nul ← Reader.u16
  if nul ≠ 0 then Reader.fail (.error "FileInfo array was not nul-terminated") else pure ()

namespace Manifest

def streamRead (hex : HexPermissive) : Reader Manifest := do
  let numFiles ← Reader.u32
  let charCount ← Reader.u32
  let fileBuffer ← Reader.exact (charCount.toNat * 2)
  within fileBuffer do
    let files ← Reader.times (FileInfo.streamRead hex) numFiles.toNat
    readEnd
    pure ⟨files⟩

/-- Entries that were deleted are kept in memory only. -/
def written (m : Manifest) : List FileInfo := m.files.filter fun f => !f.deleted

def streamWrite (m : Manifest) : Out :=
  (if m.written.length < 2 ^ 32 then Out.put (le 4 m.written.length)
    else Out.fail (.error "Too many files for stream")) ++
    writeBuffer (Out.each FileInfo.streamWrite m.written ++ Out.u16 0)

end Manifest

/-! ### Fields are read back -/

lemma each_u16 (us : List UInt16) : Out.each Out.u16 us = Out.put (unitBytes us) :=
  Out.each_eq_put us fun _ _ => rfl

lemma reads_text {s : String} (h : NulFree s) (b : Bytes) (hb : writeUtf16zText s = .ok b) :
    Reads readUtf16zText b s := by
  rw [writeUtf16zText, each_u16] at hb
  obtain rfl := Out.put_eq_ok.1 hb
  have hread := (reads_unitsZ (notMem_encodeUtf16 h)).bind_pure
    (f := fun us => String.ofList (decodeUtf16Lossy us))
  rwa [decodeUtf16Lossy_encodeUtf16, String.ofList_toList] at hread

lemma length_utf16Char_hexDigit {n : ℕ} (h : n < 16) :
    (utf16Char (ShaDigest.hexDigit n)).length = 1 := by
  revert n
  decide

lemma length_encodeUtf16_hexLower (bs : Bytes) :
    (encodeUtf16 (hexLower bs).toList).length = 2 * bs.length := by
  rw [hexLower, String.toList_ofList, encodeUtf16]
  induction bs with
  | nil => rfl
  | cons b bs ih =>
    have hb := b.toNat_lt
    have hhigh := length_utf16Char_hexDigit (show b.toNat / 16 < 16 by omega)
    have hlow := length_utf16Char_hexDigit (show b.toNat % 16 < 16 by omega)
    rw [List.flatMap_cons, List.flatMap_append, List.length_append, ih]
    simp only [List.flatMap_cons, List.flatMap_nil, List.length_append, List.length_nil,
      List.length_cons, hhigh, hlow]
    omega

lemma reads_md5Hash (hex : HexPermissive) (h : Md5Hash) (b : Bytes)
    (hb : writeUtf16zMd5Hash h = .ok b) : Reads (readUtf16zMd5Hash hex) b h := by
  rw [writeUtf16zMd5Hash, each_u16] at hb
  obtain rfl := Out.put_eq_ok.1 hb
  have hlen : (encodeUtf16 (hexLower h.data).toList).length = 32 := by
    rw [length_encodeUtf16_hexLower, h.size]
  have hunits := reads_units (encodeUtf16 (hexLower h.data).toList)
  rw [hlen] at hunits
  refine hunits.bind ((Reads.u16 0).bind_nil ?_)
  rw [if_neg (not_not.2 rfl), decodeUtf16Lossy_encodeUtf16, hex.decode_hexLower]
  simp only [h.size, dite_true]
  exact Reads.pure _

lemma halves_eq (v : UInt32) :
    (v >>> 16).toUInt16.toUInt32 <<< 16 ||| (v &&& 0xFFFF).toUInt16.toUInt32 = v := by
  have hv := v.toNat_lt
  have hlow : (v.toNat &&& 65535) % 65536 = v.toNat % 2 ^ 16 := by
    rw [show 65535 = 2 ^ 16 - 1 from rfl, Nat.and_two_pow_sub_one_eq_mod]
    omega
  have hhigh : v.toNat >>> 16 % 65536 * 65536 % 4294967296 = 2 ^ 16 * (v.toNat / 2 ^ 16) := by
    rw [Nat.shiftRight_eq_div_pow]
    omega
  apply UInt32.toNat_inj.1
  simp only [UInt32.toNat_or, UInt32.toNat_shiftLeft, UInt16.toNat_toUInt32, UInt32.toNat_toUInt16,
    UInt32.toNat_shiftRight, UInt32.toNat_and, UInt32.reduceToNat, Nat.reduceMod, Nat.reducePow,
    Nat.shiftLeft_eq]
  rw [hlow, hhigh, ← Nat.two_pow_add_eq_or_of_lt (by omega)]
  omega

lemma reads_u32 (v : UInt32) (b : Bytes) (hb : writeUtf16zU32 v = .ok b) :
    Reads readUtf16zU32 b v := by
  obtain rfl := Out.put_eq_ok.1 hb
  refine (Reads.u16 _).bind ((Reads.u16 _).bind ((Reads.u16 0).bind_nil ?_))
  rw [if_neg (not_not.2 rfl), halves_eq]
  exact Reads.pure _

lemma yields_text : Yields readUtf16zText fun _ _ => True :=
  yields_unitsZ.bind fun _ _ _ => Yields.pure _ trivial

lemma yields_u32 : Yields readUtf16zU32 fun _ c => 0 < c.length := by
  refine Yields.u16.bind fun high c hc => ?_
  refine (Yields.u16.bind fun low c hc => Yields.u16.bind fun nul c hc => ?_ :
    Yields _ fun _ _ => True).imp fun _ _ _ => by simp [hc]
  split
  · exact Yields.fail _ _
  · exact Yields.pure _ trivial

lemma yields_md5Hash (hex : HexPermissive) : Yields (readUtf16zMd5Hash hex) fun _ _ => True := by
  refine (Yields.times Yields.u16 32).bind fun buffer _ _ => Yields.u16.bind fun nul _ _ => ?_
  split
  · exact Yields.fail _ _
  · split
    · exact Yields.fail _ _
    · split
      · exact Yields.pure _ trivial
      · exact Yields.fail _ _

/-! ### Manifests are read back -/

/-- What is left of an entry on the wire. -/
def FileInfo.sent (f : FileInfo) : FileInfo := { f with updated := false, deleted := false }

lemma FileInfo.reads (hex : HexPermissive) {f : FileInfo} (hc : NulFree f.clientPath)
    (hd : NulFree f.downloadPath) (b : Bytes) (hb : f.streamWrite = .ok b) :
    Reads (FileInfo.streamRead hex) b f.sent := by
  rw [FileInfo.streamWrite] at hb
  split at hb
  · cases hb
  · refine Out.reads_append (reads_text hc) (Out.reads_append (reads_text hd) ?_) b hb
    refine Out.reads_append (reads_md5Hash hex _) (Out.reads_append (reads_md5Hash hex _) ?_)
    refine Out.reads_append (reads_u32 _) (Out.reads_append (reads_u32 _) fun c hflags => ?_)
    exact (reads_u32 _ c hflags).bind_pure

lemma writeBuffer_eq_ok {entries : Out} {b : Bytes} (h : writeBuffer entries = .ok b) :
    ∃ buffer, entries = .ok buffer ∧ buffer.length / 2 < 2 ^ 32 ∧
      buffer.length / 2 * 2 = buffer.length ∧ b = le 4 (buffer.length / 2) ++ buffer := by
  cases entries with
  | error e => cases h
  | ok buffer =>
    simp only [writeBuffer, Except.bind] at h
    split at h
    · cases h
    · rename_i heven
      split at h
      · exact ⟨buffer, rfl, ‹_›, by omega, (Out.put_eq_ok.1 h).symm⟩
      · cases h

lemma reads_end (b : Bytes) (h : Out.u16 0 = .ok b) : Reads readEnd b () := by
  obtain rfl := Out.put_eq_ok.1 h
  exact (Reads.u16 0).bind_nil (Reads.pure ())

lemma reads_files {α : Type} {p : Reader α} {w : α → Out} {g : α → α} (as : List α)
    (h : ∀ a ∈ as, ∀ b, w a = .ok b → Reads p b (g a)) (b : Bytes) (hb : Out.each w as = .ok b) :
    Reads (Reader.times p as.length) b (as.map g) := by
  induction as generalizing b with
  | nil =>
    obtain rfl := Out.put_eq_ok.1 hb
    exact Reads.pure _
  | cons a as ih =>
    refine Out.reads_append (h a (by simp)) (fun c hc => ?_) b hb
    exact (ih (fun a' ha' => h a' (by simp [ha'])) c hc).bind_pure (f := fun bs => g a :: bs)

/-- The manifest that is left of the one written. -/
def Manifest.sent (m : Manifest) : Manifest := ⟨m.written.map FileInfo.sent⟩

lemma FileInfo.yields_sent (hex : HexPermissive) :
    Yields (FileInfo.streamRead hex) fun f _ => f.sent = f := by
  refine yields_text.bind fun _ _ _ => yields_text.bind fun _ _ _ => ?_
  refine (yields_md5Hash hex).bind fun _ _ _ => (yields_md5Hash hex).bind fun _ _ _ => ?_
  refine yields_u32.bind fun _ _ _ => yields_u32.bind fun _ _ _ => yields_u32.bind fun _ _ _ => ?_
  exact Yields.pure _ rfl

lemma Manifest.sent_eq_self {m : Manifest} (h : ∀ f ∈ m.files, f.sent = f) : m.sent = m := by
  have hall : m.written = m.files := List.filter_eq_self.2 fun f hf => by
    rw [← h f hf]
    rfl
  rw [sent, hall, List.map_congr_left h, List.map_id']

lemma Manifest.yields_sent (hex : HexPermissive) :
    Yields (Manifest.streamRead hex) fun m _ => m.sent = m := by
  refine Yields.u32.bind fun n _ _ => Yields.u32.bind fun _ _ _ => ?_
  refine (Yields.exact _).bind fun buffer _ _ => yields_within buffer ?_
  refine (Yields.times_all (FileInfo.yields_sent hex) _).bind fun files _ hfiles => ?_
  refine (Yields.u16.bind fun nul _ _ => ?_ : Yields readEnd fun _ _ => True).bind
    fun _ _ _ => Yields.pure _ (Manifest.sent_eq_self hfiles.2)
  split
  · exact Yields.fail _ _
  · exact Yields.pure _ trivial

lemma Manifest.reads (hex : HexPermissive) {m : Manifest}
    (h : ∀ f ∈ m.files, NulFree f.clientPath ∧ NulFree f.downloadPath) (b : Bytes)
    (hb : m.streamWrite = .ok b) : Reads (Manifest.streamRead hex) b m.sent := by
  rw [Manifest.streamWrite] at hb
  split at hb
  · rename_i hcount
    obtain ⟨_, hrest, rfl⟩ := Out.put_append_eq_ok.1 hb
    obtain ⟨buffer, hbuffer, hlen, heven, rfl⟩ := writeBuffer_eq_ok hrest
    refine Reads.bind_count32 hcount fun n hn => Reads.bind_count32 hlen fun c hc => ?_
    rw [hc, heven, hn]
    refine (Reads.exact buffer rfl).bind_nil (reads_within ?_)
    refine Out.reads_append (reads_files m.written fun f hf => ?_)
      (fun c hc => (reads_end c hc).bind_pure) buffer hbuffer
    have hmem := h f (List.mem_filter.1 hf).1
    exact FileInfo.reads hex hmem.1 hmem.2
  · cases hb

end Moulars.FileSrv
