import Moulars.FileSrv.Manifest
import Moulars.Auth.FileRequest
import Moulars.Lib.FileTree

/-!
Entries of manifests and the files they describe.

An entry holds the path of what the client downloads, as the client writes it; the file that the
data comes from is found by it, with the extension of a compressed file taken off. `update` looks
at that file, and compresses it anew if it has changed.
-/

namespace Moulars.FileSrv

open Lib.Wire Lib.Text Lib.Paths Lib.Files
open Auth (toNative)

/-! ### Paths -/

def appendExtension (path : PathBuf) (ext : List Char) : PathBuf :=
  if ext = [] then path
  else match path.extension with
    | some curExt => path.withExtension (curExt ++ '.' :: ext)
    | none => path.withExtension ext

/-- `path_utils::to_windows`, where `/` is the native separator. -/
def toWindows (path : List Char) : List Char := path.map fun ch => if ch = '/' then '\\' else ch

/-! ### File operations -/

/-- The operations on files that an update makes, each of which may fail. -/
structure FileOps (σ : Type) where
  /-- `md5_hash_file`. -/
  hash : PathBuf → σ → Except IoKind Md5Hash
  /-- The length in the file's metadata. -/
  len : PathBuf → σ → Except IoKind ℕ
  /-- Write the first file to the second, compressed. -/
  compress : PathBuf → PathBuf → σ → Except IoKind Unit × σ
  removeFile : PathBuf → σ → Except IoKind Unit × σ

inductive UpdateError
  | io (kind : IoKind)
  | error (text : String)
  deriving DecidableEq

/-- What is not decided here: the digest, and what the compressor makes of a content. -/
structure Tools where
  md5 : Bytes → Md5Hash
  gzip : Bytes → Bytes
  hex : HexPermissive

/-- A digest and a compressor with which the model can be evaluated. -/
def Tools.plain : Tools where
  md5 bs := ⟨(bs ++ List.replicate 16 1).take 16, by simp⟩
  gzip bs := 31 :: bs
  hex := .plain

def treeOps (tools : Tools) : FileOps FileTree where
  hash p t := (t.read p).map tools.md5
  len p t := (t.read p).map List.length
  compress src gz t := match t.write gz (tools.gzip []) with
    | .error e => (.error e, t)
    | .ok t => match t.read src with
      | .error e => (.error e, t)
      | .ok content => match t.write gz (tools.gzip content) with
        | .error e => (.error e, t)
        | .ok t => (.ok (), t)
  removeFile p t := match t.remove p with
    | .error e => (.error e, t)
    | .ok t => (.ok (), t)

/-! ### Entries -/

/-- The part of a sound buffer that says how its file is to be sent. -/
structure SoundBuffer where
  flags : UInt32
  fileName : String
  deriving DecidableEq

namespace SoundBuffer

def splitChannel (b : SoundBuffer) : Bool := (b.flags &&& (4 ||| 8)) != 0

def streamCompressed (b : SoundBuffer) : Bool := (b.flags &&& 16) != 0

end SoundBuffer

namespace FileInfo

def oggSplitChannels : UInt32 := 1
def oggStreamCompressed : UInt32 := 2
def oggStereo : UInt32 := 4
def compressedGz : UInt32 := 8
def redistUpdate : UInt32 := 16

def new (clientPath : String) (downloadPath : List Char) : FileInfo :=
  ⟨clientPath, String.ofList (toWindows downloadPath), .zero, .zero, 0, 0, 0, true, false⟩

def isCompressed (f : FileInfo) : Bool := (f.flags &&& compressedGz) != 0

def downloadFile (f : FileInfo) (dataRoot : PathBuf) : PathBuf :=
  dataRoot.join (.ofText (toNative f.downloadPath.toList))

def sourcePath (f : FileInfo) (dataRoot : PathBuf) : PathBuf :=
  let srcPath := f.downloadFile dataRoot
  if f.isCompressed ∧ srcPath.extension = some "gz".toList then srcPath.withExtension []
  else srcPath

def addFlags (f : FileInfo) (flags : UInt32) : FileInfo := { f with flags := f.flags ||| flags }

def oggFlags (b : SoundBuffer) : UInt32 :=
  (if b.splitChannel then oggSplitChannels else oggStereo) |||
    (if b.streamCompressed then oggStreamCompressed else 0)

def markDeleted (f : FileInfo) : FileInfo := { f with deleted := true, updated := true }

/-- The path of a file of the data root, as the client writes it. -/
def clientText (dataRoot path : PathBuf) : Except UpdateError String :=
  match path.stripPrefix dataRoot with
  | some rest => .ok (String.ofList (toWindows rest.text))
  | none => .error (.error s!"Path '{String.ofList path.text}' is not in the data root")

section Update

variable {σ : Type} (ops : FileOps σ) (dataRoot : PathBuf)

/-- What an update does once the source was compressed, and is worth it. -/
def keepCompressed (gzPath : PathBuf) (gzLen : ℕ) (f : FileInfo) (s : σ) :
    Except UpdateError Unit × FileInfo × σ :=
  match clientText dataRoot gzPath with
  | .error e => (.error e, f, s)
  | .ok downloadPath => match ops.hash gzPath s with
    | .error e => (.error (.io e), { f with downloadPath }, s)
    | .ok downloadHash =>
      (.ok (), { f with downloadPath, downloadHash, downloadSize := UInt32.ofNat gzLen,
                        flags := f.flags ||| compressedGz, updated := true }, s)

def keepUncompressed (srcPath gzPath : PathBuf) (f : FileInfo) (s : σ) :
    Except UpdateError Unit × FileInfo × σ :=
  match clientText dataRoot srcPath with
  | .error e => (.error e, f, s)
  | .ok downloadPath =>
    let f := { f with downloadPath, downloadHash := f.fileHash, downloadSize := f.fileSize,
                      flags := f.flags &&& ~~~compressedGz }
    match ops.removeFile gzPath s with
    | (.error e, s) => (.error (.io e), f, s)
    | (.ok (), s) => (.ok (), { f with updated := true }, s)

/-- The rest of an update, with the new hash and size of the source in the entry. -/
def tryCompressing (srcPath gzPath : PathBuf) (f : FileInfo) (s : σ) :
    Except UpdateError Unit × FileInfo × σ :=
  match ops.compress srcPath gzPath s with
  | (.error e, s) => (.error (.io e), f, s)
  | (.ok (), s) => match ops.len gzPath s with
    | .error e => (.error (.io e), f, s)
    | .ok gzLen =>
      -- less than 10% saved is not worth it
      if gzLen < f.fileSize.toNat * 9 / 10 then keepCompressed ops dataRoot gzPath gzLen f s
      else keepUncompressed ops dataRoot srcPath gzPath f s

/-- `update`, the entry it leaves, also when it fails, and the files. -/
def update (f : FileInfo) (s : σ) : Except UpdateError Unit × FileInfo × σ :=
  let srcPath := f.sourcePath dataRoot
  match ops.hash srcPath s with
  | .error e => (.error (.io e), f, s)
  | .ok updatedFileHash => match ops.len srcPath s with
    | .error e => (.error (.io e), f, s)
    | .ok len =>
      if len ≠ f.fileSize.toNat ∨ updatedFileHash ≠ f.fileHash then
        if 2 ^ 32 ≤ len then
          (.error (.error "Source file is too large"), { f with fileHash := updatedFileHash }, s)
        else
          tryCompressing ops dataRoot srcPath (appendExtension srcPath "gz".toList)
            { f with fileHash := updatedFileHash, fileSize := UInt32.ofNat len } s
      else (.ok (), f, s)

end Update

end FileInfo

/-! ### Manifests on disk -/

/-- The text of an error of the operating system. -/
def ioFault : IoKind → Fault
  | .notFound => .error "No such file or directory (os error 2)"
  | .notADirectory => .error "Not a directory (os error 20)"
  | .isADirectory => .error "Is a directory (os error 21)"

namespace Manifest

def cacheMagic : ℕ := 0x0153464d

def new : Manifest := ⟨[]⟩

def add (m : Manifest) (file : FileInfo) : Manifest := ⟨m.files ++ [file]⟩

def anyUpdated (m : Manifest) : Bool := m.files.any FileInfo.updated

/-- What `from_cache` makes of the content of a file. -/
def readCache (hex : HexPermissive) : Reader Manifest := do
  let magic ← Reader.u32
  if magic.toNat ≠ cacheMagic then
    Reader.fail
      (.error s!"Unknown/invalid cache file magic '{hexLower (le 4 magic.toNat).reverse}'")
  else streamRead hex

def fromCache (hex : HexPermissive) (path : PathBuf) (t : FileTree) : Except Fault Manifest :=
  match t.read path with
  | .error e => .error (ioFault e)
  | .ok content => ((readCache hex).run content).map Prod.fst

def cacheBytes (m : Manifest) : Out := Out.put (le 4 cacheMagic) ++ m.streamWrite

/-- `write_cache`. When it fails half-way, the file has been created. -/
def writeCache (m : Manifest) (path : PathBuf) (t : FileTree) : Except Fault Unit × FileTree :=
  match t.write path (le 4 cacheMagic) with
  | .error e => (.error (ioFault e), t)
  | .ok t => match m.cacheBytes with
    | .error e => (.error e, t)
    | .ok content => match t.write path content with
      | .error e => (.error (ioFault e), t)
      | .ok t => (.ok (), t)

def loadOrCreate (hex : HexPermissive) (path : PathBuf) (t : FileTree) : Except Fault Manifest :=
  if t.contains path then fromCache hex path t else .ok new

end Manifest

/-! ### What an update does to the files -/

abbrev gzPath (src : PathBuf) : PathBuf := appendExtension src "gz".toList

lemma gzPath_child (dir : PathBuf) (name : List Char) :
    gzPath (dir.child name) = dir.child (name ++ ".gz".toList) := by
  have hpiece (stem : List Char) : (Part.ofPiece (stem ++ '.' :: "gz".toList)).toList =
      [.normal (stem ++ ".gz".toList)] := by
    rw [ofPiece_append (by decide) (by decide)]
    rfl
  rw [gzPath, appendExtension, if_neg (by decide), PathBuf.extension, PathBuf.fileName_child,
    Option.bind_some]
  cases hext : extensionOf name with
  | none =>
    rw [PathBuf.withExtension_child dir (by decide), stemOf_of_none hext, hpiece]
    rfl
  | some ext =>
    have hstem := stemOf_append_extensionOf hext
    simp only
    rw [PathBuf.withExtension_child dir (by simp)]
    have hname : stemOf name ++ '.' :: (ext ++ '.' :: "gz".toList) =
        name ++ '.' :: "gz".toList := by
      rw [← List.cons_append, ← List.append_assoc, hstem]
    rw [hname, hpiece]
    rfl

lemma gzPath_of_fileName_none {src : PathBuf} (h : src.fileName = none) : gzPath src = src := by
  rw [gzPath, appendExtension, if_neg (by decide), PathBuf.extension, h]
  simp only [Option.bind_none, PathBuf.withExtension, h]

lemma exists_of_fileName_gzPath {src : PathBuf} (h : (gzPath src).fileName ≠ none) :
    ∃ dir name, src = PathBuf.child dir name := by
  cases hname : src.fileName with
  | some name =>
    obtain ⟨dir, hdir⟩ := PathBuf.eq_child_of_fileName hname
    exact ⟨dir, name, hdir⟩
  | none =>
    rw [gzPath_of_fileName_none hname] at h
    exact absurd hname h

section Trees

variable (tools : Tools) (root src gz : PathBuf) (f : FileInfo) (t : FileTree)

open FileTree

lemma touched_compress : Touched gz t ((treeOps tools).compress src gz t).2 := by
  simp only [treeOps]
  split
  · exact .refl gz t
  · rename_i t₁ hcreate
    split
    · exact .write hcreate
    · split
      · exact .write hcreate
      · rename_i t₂ hwrite
        exact (Touched.write hcreate).trans (.write hwrite)

lemma touched_removeFile : Touched gz t ((treeOps tools).removeFile gz t).2 := by
  simp only [treeOps]
  cases hremove : t.remove gz with
  | error e => exact .refl gz t
  | ok t₁ => exact .remove hremove

lemma touched_keepUncompressed :
    Touched gz t (FileInfo.keepUncompressed (treeOps tools) root src gz f t).2.2 := by
  have hremove := touched_removeFile tools gz t
  rw [FileInfo.keepUncompressed]
  split
  · exact .refl gz t
  · split <;> simpa [*] using hremove

lemma keepCompressed_files (gzLen : ℕ) :
    (FileInfo.keepCompressed (treeOps tools) root gz gzLen f t).2.2 = t := by
  rw [FileInfo.keepCompressed]
  split
  · rfl
  · split <;> rfl

lemma touched_tryCompressing :
    Touched gz t (FileInfo.tryCompressing (treeOps tools) root src gz f t).2.2 := by
  have hcompress := touched_compress tools src gz t
  rw [FileInfo.tryCompressing]
  split
  · simpa [*] using hcompress
  · rename_i t₁ hrun
    rw [hrun] at hcompress
    split
    · exact hcompress
    · split
      · rw [keepCompressed_files]
        exact hcompress
      · exact hcompress.trans (touched_keepUncompressed ..)

/-- **An update touches the compressed file beside its source, and no other.** -/
theorem touched_update :
    Touched (gzPath (f.sourcePath root)) t (f.update (treeOps tools) root t).2.2 := by
  rw [FileInfo.update]
  split
  · exact .refl _ t
  · split
    · exact .refl _ t
    · split
      · split
        · exact .refl _ t
        · exact touched_tryCompressing ..
      · exact .refl _ t

lemma touched_writeCache (m : Manifest) (path : PathBuf) :
    Touched path t (m.writeCache path t).2 := by
  rw [Manifest.writeCache]
  split
  · exact .refl path t
  · rename_i t₁ hcreate
    split
    · exact .write hcreate
    · split
      · exact .write hcreate
      · rename_i t₂ hwrite
        exact (Touched.write hcreate).trans (.write hwrite)

end Trees

/-! ### What an update does to the entry -/

section Entries

variable {σ : Type} (ops : FileOps σ) (root src gz : PathBuf) (f : FileInfo) (s : σ)

/-- A later version of an entry: it is no more deleted than before, and not less updated. -/
structure FileInfo.Later (f f' : FileInfo) : Prop where
  deleted : f'.deleted = f.deleted
  updated : f.updated = true → f'.updated = true

lemma FileInfo.Later.refl : f.Later f := ⟨rfl, id⟩

lemma later_keepCompressed (gzLen : ℕ) :
    f.Later (f.keepCompressed ops root gz gzLen s).2.1 := by
  rw [FileInfo.keepCompressed]
  split
  · exact .refl f
  · split
    · exact ⟨rfl, id⟩
    · exact ⟨rfl, fun _ => rfl⟩

lemma later_keepUncompressed : f.Later (f.keepUncompressed ops root src gz s).2.1 := by
  rw [FileInfo.keepUncompressed]
  split
  · exact .refl f
  · split
    · exact ⟨rfl, id⟩
    · exact ⟨rfl, fun _ => rfl⟩

lemma later_tryCompressing : f.Later (f.tryCompressing ops root src gz s).2.1 := by
  rw [FileInfo.tryCompressing]
  split
  · exact .refl f
  · split
    · exact .refl f
    · split
      · exact later_keepCompressed ..
      · exact later_keepUncompressed ..

lemma later_update : f.Later (f.update ops root s).2.1 := by
  rw [FileInfo.update]
  split
  · exact .refl f
  · split
    · exact .refl f
    · split
      · split
        · exact ⟨rfl, id⟩
        · obtain ⟨hdeleted, hupdated⟩ := later_tryCompressing ops root (f.sourcePath root)
            (appendExtension (f.sourcePath root) "gz".toList)
            { f with fileHash := _, fileSize := _ } s
          exact ⟨hdeleted, hupdated⟩
      · exact .refl f

end Entries

/-! ### Updates that change nothing -/

section Unchanged

variable {tools : Tools} {root : PathBuf} {f : FileInfo} {t : FileTree}

lemma update_of_read_error {e : IoKind} (h : t.read (f.sourcePath root) = .error e) :
    f.update (treeOps tools) root t = (.error (.io e), f, t) := by
  simp only [FileInfo.update, treeOps, h, Except.map]

lemma update_of_unchanged {b : Bytes} (h : t.read (f.sourcePath root) = .ok b)
    (hlen : b.length = f.fileSize.toNat) (hhash : tools.md5 b = f.fileHash) :
    f.update (treeOps tools) root t = (.ok (), f, t) := by
  simp [FileInfo.update, treeOps, h, Except.map, hlen, hhash]

end Unchanged

/-! ### Updates that go through -/

namespace FileInfo

lemma and_or_right (x y m : UInt32) : (x ||| y) &&& m = (x &&& m) ||| (y &&& m) := by
  apply UInt32.toNat_inj.1
  simp only [UInt32.toNat_and, UInt32.toNat_or, Nat.and_or_distrib_right]

lemma isCompressed_addFlags (f : FileInfo) {flags : UInt32} (h : flags &&& compressedGz = 0) :
    (f.addFlags flags).isCompressed = f.isCompressed := by
  simp only [isCompressed, addFlags, and_or_right, h, UInt32.or_zero]

lemma compressed_or (flags : UInt32) : ((flags ||| compressedGz) &&& compressedGz != 0) = true := by
  rw [and_or_right, bne_iff_ne, Ne, UInt32.or_eq_zero_iff]
  exact fun h => absurd h.2 (by decide)

lemma compressed_and_not (flags : UInt32) :
    ((flags &&& ~~~compressedGz) &&& compressedGz != 0) = false := by
  rw [UInt32.and_assoc, show ~~~compressedGz &&& compressedGz = 0 from rfl, UInt32.and_zero]
  rfl

lemma oggFlags_and (b : SoundBuffer) : oggFlags b &&& compressedGz = 0 := by
  unfold oggFlags
  cases b.splitChannel <;> cases b.streamCompressed <;> decide

/-- The entry after an update, for the file `name` with the content `b` in the directory `dir` of
the data root. -/
def refreshed (tools : Tools) (dir : PathBuf) (name : List Char) (b : Bytes) (f : FileInfo) :
    FileInfo :=
  if (tools.gzip b).length < b.length * 9 / 10 then
    { f with
      fileHash := tools.md5 b
      fileSize := UInt32.ofNat b.length
      downloadPath := String.ofList (toWindows (dir.child (name ++ ".gz".toList)).text)
      downloadHash := tools.md5 (tools.gzip b)
      downloadSize := UInt32.ofNat (tools.gzip b).length
      flags := f.flags ||| compressedGz
      updated := true }
  else
    { f with
      fileHash := tools.md5 b
      fileSize := UInt32.ofNat b.length
      downloadPath := String.ofList (toWindows (dir.child name).text)
      downloadHash := tools.md5 b
      downloadSize := UInt32.ofNat b.length
      flags := f.flags &&& ~~~compressedGz
      updated := true }

end FileInfo

/-- A source that can be taken over. -/
structure Fit (t : FileTree) (root dir : PathBuf) (name : List Char) (b : Bytes) : Prop where
  relative : dir.root = false
  read : t.read ((root.join dir).child name) = .ok b
  small : b.length < 2 ^ 32
  creatable : ∃ t', t.write (gzPath ((root.join dir).child name)) [] = .ok t'

instance (t : FileTree) (root dir : PathBuf) (name : List Char) (b : Bytes) :
    Decidable (Fit t root dir name b) :=
  decidable_of_iff (dir.root = false ∧ t.read ((root.join dir).child name) = .ok b ∧
      b.length < 2 ^ 32 ∧ (t.write (gzPath ((root.join dir).child name)) []).toOption.isSome)
    ⟨fun ⟨hdir, hread, hsmall, hgz⟩ => ⟨hdir, hread, hsmall, by
        cases hw : t.write (gzPath ((root.join dir).child name)) [] with
        | error e => simp [hw, Except.toOption] at hgz
        | ok t' => exact ⟨t', rfl⟩⟩,
      fun ⟨hdir, hread, hsmall, t', hgz⟩ => ⟨hdir, hread, hsmall, by simp [hgz, Except.toOption]⟩⟩

section Fit

variable (tools : Tools) {root dir : PathBuf} {name : List Char} {b : Bytes} {f : FileInfo}
  {t : FileTree}

open FileTree

lemma clientText_join (root : PathBuf) (hdir : dir.root = false) (name : List Char) :
    FileInfo.clientText root ((root.join dir).child name) =
      .ok (String.ofList (toWindows (dir.child name).text)) := by
  obtain ⟨hroot, parts⟩ := dir
  obtain rfl : hroot = false := hdir
  have hstrip := PathBuf.stripPrefix_append root (parts ++ [.normal name])
  rw [← List.append_assoc] at hstrip
  simp only [FileInfo.clientText, PathBuf.join, Bool.false_eq_true, if_false, PathBuf.child, hstrip]

lemma apart_gzPath : t.Apart (gzPath (root.child name)) (root.child name) := by
  rw [gzPath_child]
  exact apart_child (by simp)

lemma compress_of_fit (h : Fit t root dir name b) :
    ∃ t', (treeOps tools).compress ((root.join dir).child name)
        (gzPath ((root.join dir).child name)) t = (.ok (), t') ∧
      t'.read (gzPath ((root.join dir).child name)) = .ok (tools.gzip b) := by
  obtain ⟨t₀, hcreatable⟩ := h.creatable
  obtain ⟨t₁, hcreate⟩ := exists_write hcreatable (tools.gzip [])
  obtain ⟨t₂, hwrite⟩ := exists_write_write hcreate (tools.gzip b)
  have hread : t₁.read ((root.join dir).child name) = .ok b :=
    ((Touched.write hcreate).read_iff apart_gzPath).2 h.read
  refine ⟨t₂, ?_, read_of_write hwrite⟩
  simp only [treeOps, hcreate, hread, hwrite]

/-- **An update of a source that has changed and can be taken over succeeds.** -/
theorem update_of_fit (h : Fit t root dir name b)
    (hsrc : f.sourcePath root = (root.join dir).child name)
    (hchanged : b.length ≠ f.fileSize.toNat ∨ tools.md5 b ≠ f.fileHash) :
    ∃ t', f.update (treeOps tools) root t = (.ok (), f.refreshed tools dir name b, t') ∧
      ((tools.gzip b).length < b.length * 9 / 10 →
        t'.read (gzPath (f.sourcePath root)) = .ok (tools.gzip b)) := by
  have hhash : (treeOps tools).hash (f.sourcePath root) t = .ok (tools.md5 b) := by
    simp only [treeOps, hsrc, h.read, Except.map]
  have hlen : (treeOps tools).len (f.sourcePath root) t = .ok b.length := by
    simp only [treeOps, hsrc, h.read, Except.map]
  have hsize : (UInt32.ofNat b.length).toNat = b.length := UInt32.toNat_ofNat_of_lt' h.small
  obtain ⟨t₁, hcompress, hgz⟩ := compress_of_fit tools h
  rw [← hsrc] at hcompress hgz
  have hgzLen : (treeOps tools).len (gzPath (f.sourcePath root)) t₁ =
      .ok (tools.gzip b).length := by
    simp only [treeOps, hgz, Except.map]
  simp only [FileInfo.update, hhash, hlen, if_pos hchanged, if_neg (Nat.not_le.2 h.small),
    FileInfo.tryCompressing, hcompress, hgzLen, hsize, FileInfo.refreshed]
  split
  · -- the compressed file is kept
    have htext := clientText_join root h.relative (name ++ ".gz".toList)
    rw [← gzPath_child, ← hsrc] at htext
    have hgzHash : (treeOps tools).hash (gzPath (f.sourcePath root)) t₁ =
        .ok (tools.md5 (tools.gzip b)) := by
      simp only [treeOps, hgz, Except.map]
    refine ⟨t₁, ?_, fun _ => hgz⟩
    simp only [FileInfo.keepCompressed, htext, hgzHash]
  · have htext := clientText_join root h.relative name
    have hgzName : (gzPath (f.sourcePath root)).fileName ≠ none := by
      rw [hsrc, gzPath_child, PathBuf.fileName_child]
      exact Option.some_ne_none _
    rw [← hsrc] at htext
    obtain ⟨t₂, hremove⟩ := exists_remove hgz hgzName
    refine ⟨t₂, ?_, fun hsaved => absurd hsaved ‹_›⟩
    simp only [FileInfo.keepUncompressed, htext, treeOps, hremove]

end Fit

/-! ### Paths that are found again -/

/-- A part of a path that reads the same for the client and the server. -/
structure Portable (c : Part) : Prop extends c.Plain where
  noBackslash : '\\' ∉ c.text

instance (c : Part) : Decidable (Portable c) :=
  decidable_of_iff (Part.ofPiece c.text = some c ∧ '/' ∉ c.text ∧ '\\' ∉ c.text)
    ⟨fun ⟨hpiece, hslash, hback⟩ => ⟨⟨hpiece, hslash⟩, hback⟩,
      fun ⟨⟨hpiece, hslash⟩, hback⟩ => ⟨hpiece, hslash, hback⟩⟩

lemma Portable.gz {name : List Char} (h : Portable (.normal name)) :
    Portable (.normal (name ++ ".gz".toList)) where
  ofPiece := ofPiece_append (by decide) (by decide)
  noSlash := by
    have hslash : '/' ∉ name := h.noSlash
    simpa [Part.text] using hslash
  noBackslash := by
    have hback : '\\' ∉ name := h.noBackslash
    simpa [Part.text] using hback

lemma toNative_toWindows {s : List Char} (h : '\\' ∉ s) : toNative (toWindows s) = s := by
  rw [toNative, toWindows, List.map_map]
  refine (List.map_congr_left fun c hc => ?_).trans (List.map_id s)
  have hne : c ≠ '\\' := by
    rintro rfl
    exact h hc
  by_cases hslash : c = '/' <;> simp [hslash, hne]

lemma ofText_toNative_toWindows {p : PathBuf} (h : ∀ c ∈ p.parts, Portable c) :
    PathBuf.ofText (toNative (toWindows p.text)) = p := by
  have hback : '\\' ∉ p.text := by
    intro hmem
    have hbody : '\\' ∈ List.intercalate ['/'] (p.parts.map Part.text) := by
      rw [PathBuf.text] at hmem
      refine (List.mem_append.1 hmem).resolve_left fun hroot => ?_
      cases hr : p.root <;> simp [hr] at hroot
    rcases mem_intercalate hbody with hc | ⟨piece, hpiece, hc⟩
    · cases hc
    · obtain ⟨c, hmem, rfl⟩ := List.mem_map.1 hpiece
      exact (h c hmem).noBackslash hc
  rw [toNative_toWindows hback, PathBuf.ofText_text fun c hc => (h c hc).toPlain]

namespace FileInfo

variable (tools : Tools) (root : PathBuf) {cs : List Part} {name : List Char} (b : Bytes)
  (f : FileInfo)
  (hcs : ∀ c ∈ cs, Portable c) (hname : Portable (.normal name))

include hcs hname

lemma join_ofText_child : root.join (.ofText (toNative (String.ofList
    (toWindows (PathBuf.child ⟨false, cs⟩ name).text)).toList)) =
      (root.join ⟨false, cs⟩).child name := by
  have hall : ∀ c ∈ cs ++ [.normal name], Portable c := by
    intro c hc
    rcases List.mem_append.1 hc with hc | hc
    · exact hcs c hc
    · rwa [List.mem_singleton.1 hc]
  rw [String.toList_ofList, ofText_toNative_toWindows hall, PathBuf.join_child]

lemma downloadFile_refreshed :
    (f.refreshed tools ⟨false, cs⟩ name b).downloadFile root =
      if (tools.gzip b).length < b.length * 9 / 10 then
        gzPath ((root.join ⟨false, cs⟩).child name)
      else (root.join ⟨false, cs⟩).child name := by
  rw [refreshed, downloadFile]
  split
  · rw [gzPath_child]
    exact join_ofText_child root hcs hname.gz
  · exact join_ofText_child root hcs hname

/-- **After an update the source is where it was.** -/
theorem sourcePath_refreshed :
    (f.refreshed tools ⟨false, cs⟩ name b).sourcePath root =
      (root.join ⟨false, cs⟩).child name := by
  have hdownload := downloadFile_refreshed tools root b f hcs hname
  have hne : name ≠ [] := hname.text_ne_nil
  by_cases hsaved : (tools.gzip b).length < b.length * 9 / 10
  · have hcomp : (f.refreshed tools ⟨false, cs⟩ name b).isCompressed = true := by
      rw [isCompressed, refreshed, if_pos hsaved]
      exact compressed_or f.flags
    have hext : (gzPath ((root.join ⟨false, cs⟩).child name)).extension = some "gz".toList := by
      rw [gzPath_child, PathBuf.extension, PathBuf.fileName_child, Option.bind_some]
      exact extensionOf_append hne (by decide)
    rw [if_pos hsaved] at hdownload
    rw [sourcePath, hdownload, if_pos ⟨hcomp, hext⟩, gzPath_child]
    exact PathBuf.withExtension_nil_child _ hname.ofPiece (by decide)
  · have hcomp : (f.refreshed tools ⟨false, cs⟩ name b).isCompressed = false := by
      rw [isCompressed, refreshed, if_neg hsaved]
      exact compressed_and_not f.flags
    rw [if_neg hsaved] at hdownload
    rw [sourcePath, hdownload, if_neg (by simp [hcomp])]

end FileInfo

/-! ### Manifests are found again -/

namespace Manifest

variable {hex : HexPermissive} {path : PathBuf} {m : Manifest} {t t' : FileTree}

lemma reads_cache (hex : HexPermissive)
    (h : ∀ f ∈ m.files, NulFree f.clientPath ∧ NulFree f.downloadPath) {content : Bytes}
    (hcontent : m.cacheBytes = .ok content) : Reads (readCache hex) content m.sent := by
  obtain ⟨b, hb, rfl⟩ := Out.put_append_eq_ok.1 hcontent
  refine (Reads.u32 0x0153464d).bind ?_
  rw [if_neg (by decide)]
  exact Manifest.reads hex h b hb

lemma sent_of_loadOrCreate (h : loadOrCreate hex path t = .ok m) : m.sent = m := by
  rw [loadOrCreate] at h
  split at h
  · rw [fromCache] at h
    split at h
    · cases h
    · rename_i content _
      cases hrun : (readCache hex).run content with
      | error e =>
        rw [hrun] at h
        cases h
      | ok v =>
        rw [hrun] at h
        cases h
        have hyields : Yields (readCache hex) fun m _ => m.sent = m := by
          refine Yields.u32.bind fun magic _ _ => ?_
          split
          · exact Yields.fail _ _
          · exact Manifest.yields_sent hex
        obtain ⟨_, -, hsent⟩ := hyields _ _ _ hrun
        exact hsent
  · cases h
    rfl

lemma loadOrCreate_of_file {content : Bytes} (h : t.find path = .ok (.file content)) :
    loadOrCreate hex path t = ((readCache hex).run content).map Prod.fst := by
  have hcontains : t.contains path = true := by simp [FileTree.contains, h, Except.toOption]
  rw [loadOrCreate, if_pos hcontains, fromCache, FileTree.read_eq_ok.2 h]

lemma loadOrCreate_of_dir (h : t.find path = .ok .dir) :
    loadOrCreate hex path t = .error (ioFault .isADirectory) := by
  have hcontains : t.contains path = true := by simp [FileTree.contains, h, Except.toOption]
  have hread : t.read path = .error .isADirectory := by simp [FileTree.read, h, Except.bind]
  rw [loadOrCreate, if_pos hcontains, fromCache, hread]

lemma loadOrCreate_of_error {e : IoKind} (h : t.find path = .error e) :
    loadOrCreate hex path t = .ok new := by
  have hcontains : t.contains path = false := by simp [FileTree.contains, h, Except.toOption]
  rw [loadOrCreate, hcontains]
  rfl

lemma loadOrCreate_congr (h : ∀ node, t'.find path = .ok node ↔ t.find path = .ok node) :
    loadOrCreate hex path t' = loadOrCreate hex path t := by
  cases hfind : t.find path with
  | ok node =>
    have hfind' := (h node).2 hfind
    cases node with
    | file content => rw [loadOrCreate_of_file hfind, loadOrCreate_of_file hfind']
    | dir => rw [loadOrCreate_of_dir hfind, loadOrCreate_of_dir hfind']
  | error e =>
    cases hfind' : t'.find path with
    | ok node =>
      rw [(h node).1 hfind'] at hfind
      cases hfind
    | error e' => rw [loadOrCreate_of_error hfind, loadOrCreate_of_error hfind']

/-- **What was written is loaded.** -/
theorem loadOrCreate_of_writeCache (hrun : m.writeCache path t = (.ok (), t'))
    (h : ∀ f ∈ m.files, NulFree f.clientPath ∧ NulFree f.downloadPath) :
    loadOrCreate hex path t' = .ok m.sent := by
  rw [writeCache] at hrun
  split at hrun
  · cases hrun
  · split at hrun
    · cases hrun
    · rename_i content hcontent
      split at hrun
      · cases hrun
      · rename_i t₂ hwrite
        cases hrun
        have hread := FileTree.read_of_write hwrite
        have hcache := reads_cache hex h hcontent []
        rw [List.append_nil] at hcache
        rw [loadOrCreate_of_file (FileTree.read_eq_ok.1 hread), hcache]
        rfl

end Manifest

end Moulars.FileSrv
