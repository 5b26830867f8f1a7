import Moulars.Auth.Messages
import Moulars.FileSrv.Manifest

/-!
Manifests of the auth server on the wire.

The fields are those of the file server's manifests. There is no number of entries: the reader
goes on until only the last unit of the buffer is left.
-/

namespace Moulars.Auth

open Lib.Wire Lib.Text FileSrv

def FileInfo.streamRead : Reader FileInfo := do
  let path ← readUtf16zText
  let fileSize ← readUtf16zU32
  pure ⟨path, fileSize⟩

def FileInfo.streamWrite (f : FileInfo) : Out := writeUtf16zText f.path ++ writeUtf16zU32 f.fileSize

/-- Entries up to a position of a buffer of `total` bytes, in at most so many rounds. -/
def readFiles (total lastCharPos : ℕ) : ℕ → Reader (List FileInfo)
  | 0 => Reader.fail (.panic "")
  | rounds + 1 => do
    let left ← Reader.left
    if total - left < lastCharPos then do
      let file ← FileInfo.streamRead
      let files ← readFiles total lastCharPos rounds
      pure (file :: files)
    else pure []

namespace Manifest

/-- Every entry takes some bytes, so there are fewer rounds than bytes. -/
def streamRead : Reader Manifest := do
  let charCount ← Reader.u32
  let fileBuffer ← Reader.exact (charCount.toNat * 2)
  if fileBuffer.length < 2 then Reader.fail (.panic "attempt to subtract with overflow")
  else within fileBuffer do
    let files ← readFiles fileBuffer.length (fileBuffer.length - 2) (fileBuffer.length + 1)
    readEnd
    pure ⟨files⟩

def streamWrite (m : Manifest) : Out :=
  writeBuffer (Out.each FileInfo.streamWrite m.files ++ Out.u16 0)

end Manifest

/-! ### The position decides where the list ends -/

lemma FileInfo.reads {f : FileInfo} (h : NulFree f.path) (b : Bytes) (hb : f.streamWrite = .ok b) :
    Reads FileInfo.streamRead b f :=
  Out.reads_append (reads_text h) (fun c hc => (reads_u32 _ c hc).bind_pure) b hb

lemma FileInfo.yields : Yields FileInfo.streamRead fun _ c => 0 < c.length :=
  yields_text.bind fun _ _ _ => yields_u32.bind fun _ _ hc =>
    Yields.pure _ (by simpa using by omega)

lemma FileInfo.length_pos {f : FileInfo} {b : Bytes} (hb : f.streamWrite = .ok b) :
    0 < b.length := by
  obtain ⟨b₁, b₂, -, h₂, rfl⟩ := Out.append_eq_ok.1 hb
  obtain rfl := Out.put_eq_ok.1 h₂
  simp

/-- **The rounds never run out**: more of them than there are bytes give the same result. -/
lemma readFiles_rounds {total lastCharPos n m : ℕ} {s : Bytes} (hn : s.length < n)
    (hm : s.length < m) :
    (readFiles total lastCharPos n).run s = (readFiles total lastCharPos m).run s := by
  induction n generalizing m s with
  | zero => omega
  | succ n ih =>
    obtain ⟨m, rfl⟩ : ∃ k, m = k + 1 := ⟨m - 1, by omega⟩
    rw [readFiles, readFiles, Reader.run_left_bind, Reader.run_left_bind]
    split
    · cases hfile : FileInfo.streamRead.run s with
      | error e => rw [Reader.bind_error hfile, Reader.bind_error hfile]
      | ok v =>
        obtain ⟨file, r⟩ := v
        obtain ⟨c, rfl, hc⟩ := FileInfo.yields s file r hfile
        rw [List.length_append] at hn hm
        rw [Reader.bind_ok hfile, Reader.bind_ok hfile, Reader.run_bind, Reader.run_bind,
          ih (by omega) (show r.length < m by omega)]
    · rfl

lemma run_readFiles (files : List FileInfo) (h : ∀ f ∈ files, NulFree f.path) {b : Bytes}
    (hb : Out.each FileInfo.streamWrite files = .ok b) {total rounds : ℕ}
    (htotal : b.length + 2 ≤ total) (hrounds : b.length < rounds) :
    (readFiles total (total - 2) rounds).run (b ++ le 2 0) = .ok (files, le 2 0) := by
  induction files generalizing b rounds with
  | nil =>
    obtain rfl := Out.put_eq_ok.1 hb
    obtain ⟨r, rfl⟩ : ∃ r, rounds = r + 1 := ⟨rounds - 1, by omega⟩
    rw [readFiles, Reader.run_left_bind, if_neg (by simp)]
    rfl
  | cons f files ih =>
    obtain ⟨b₁, b₂, h₁, h₂, rfl⟩ := Out.append_eq_ok.1 hb
    obtain ⟨r, rfl⟩ : ∃ r, rounds = r + 1 := ⟨rounds - 1, by omega⟩
    have hpos := FileInfo.length_pos h₁
    rw [List.length_append] at htotal hrounds
    have hrest := ih (fun g hg => h g (by simp [hg])) h₂ (by omega) (show b₂.length < r by omega)
    have hfile := FileInfo.reads (h f (by simp)) b₁ h₁ (b₂ ++ le 2 0)
    -- more than the last unit is left
    have hmore : total - (b₁ ++ b₂ ++ le 2 0).length < total - 2 := by
      simp only [List.length_append, length_le]
      omega
    rw [readFiles, Reader.run_left_bind, if_pos hmore, List.append_assoc, Reader.bind_ok hfile,
      Reader.bind_ok hrest]
    rfl

lemma Manifest.reads {m : Manifest} (h : ∀ f ∈ m.files, NulFree f.path) (b : Bytes)
    (hb : m.streamWrite = .ok b) : Reads Manifest.streamRead b m := by
  obtain ⟨buffer, hbuffer, hlen, heven, rfl⟩ := writeBuffer_eq_ok hb
  obtain ⟨entries, e, hentries, he, rfl⟩ := Out.append_eq_ok.1 hbuffer
  obtain rfl : le 2 0 = e := Out.put_eq_ok.1 he
  have hrun : (readFiles (entries ++ le 2 0).length ((entries ++ le 2 0).length - 2)
      ((entries ++ le 2 0).length + 1)).run (entries ++ le 2 0) = .ok (m.files, le 2 0) :=
    run_readFiles m.files h hentries (by simp)
      (by rw [List.length_append, length_le]; omega)
  refine Reads.bind_count32 hlen fun c hc => ?_
  rw [hc, heven]
  refine (Reads.exact _ rfl).bind_nil ?_
  rw [if_neg (by simp)]
  refine reads_within_run (r := []) ?_
  have hend : readEnd.run (le 2 0) = .ok ((), []) := reads_end _ rfl []
  rw [Reader.bind_ok hrun, Reader.bind_ok hend]
  rfl

/-- **Manifests are read back**, those of the file server without the entries that were deleted,
and whatever follows them on the stream is left there. -/
theorem manifest_round_trip (hex : HexPermissive) :
    (∀ (m : FileSrv.Manifest) (b : Bytes),
      (∀ f ∈ m.files, NulFree f.clientPath ∧ NulFree f.downloadPath) → m.streamWrite = .ok b →
      Reads (FileSrv.Manifest.streamRead hex) b
        ⟨(m.files.filter fun f => !f.deleted).map fun f =>
          { f with updated := false, deleted := false }⟩) ∧
    (∀ (m : Manifest) (b : Bytes), (∀ f ∈ m.files, NulFree f.path) → m.streamWrite = .ok b →
      Reads Manifest.streamRead b m) :=
  ⟨fun _ b h hb => FileSrv.Manifest.reads hex h b hb, fun _ b h hb => Manifest.reads h b hb⟩

def sampleManifest : FileSrv.Manifest where
  files :=
    [⟨"plClient.exe", "client\\plClient.exe.gz", Md5Hash.zero, Md5Hash.zero, 0x12345678, 0, 8, true,
      false⟩,
    ⟨"gone.dll", "client\\gone.dll", Md5Hash.zero, Md5Hash.zero, 5, 5, 0, true, true⟩]

theorem sampleManifest_round_trip :
    (∃ b, sampleManifest.streamWrite = .ok b ∧
      (FileSrv.Manifest.streamRead .plain).run b = .ok (⟨[⟨"plClient.exe",
        "client\\plClient.exe.gz", Md5Hash.zero, Md5Hash.zero, 0x12345678, 0, 8, false, false⟩]⟩,
          [])) ∧
    ∃ b, (Manifest.mk [⟨"SDL\\Garden.sdl", 0x10000⟩]).streamWrite = .ok b ∧
      Manifest.streamRead.run b = .ok (⟨[⟨"SDL\\Garden.sdl", 0x10000⟩]⟩, []) := by
  obtain ⟨b, hb⟩ : ∃ b, sampleManifest.streamWrite = .ok b :=
    Out.exists_of_isOk (by decide +kernel)
  obtain ⟨c, hc⟩ : ∃ c, (Manifest.mk [⟨"SDL\\Garden.sdl", 0x10000⟩]).streamWrite = .ok c :=
    Out.exists_of_isOk (by decide +kernel)
  have hread := (manifest_round_trip .plain).1 sampleManifest b (by decide) hb []
  have hread' := (manifest_round_trip .plain).2 _ c (by decide) hc []
  rw [List.append_nil] at hread hread'
  exact ⟨⟨b, hb, hread⟩, c, hc, hread'⟩

end Moulars.Auth
