import Moulars.FileSrv.FileInfo
import Moulars.Lib.Jobs
import Moulars.Plasma.FileCrypt
import Mathlib.Data.Fin.VecNotation
import Mathlib.Data.List.Infix

/-!
The manifests of the file server, made from what is in the data directory.

For each manifest, `cacheClients` updates the entries that are there, adds those that are missing,
and writes the manifest if one of its entries says that it was updated. All manifests share the
entries of one cache. The state also keeps a record of what was done, each step with the files and
the cache before it; the program does not look at it.
-/

namespace Moulars.FileSrv

open Lib.Wire Lib.Text Lib.Paths Lib.Files Lib.Hash
open Lib.Jobs Hashes Plasma

/-- What a page file says about the files of its age. -/
structure PageFile where
  sounds : List SoundBuffer
  hasRelevance : Bool

/-- The surroundings of a run. What is in `.age` and page files is any function of their content,
and the orders are those in which directories are listed and sets are visited. -/
structure Site where
  dataRoot : PathBuf
  tools : Tools
  agePages : Bytes → Except Fault (List String)
  pageFile : Bytes → Except Fault PageFile
  /-- What compiling the Python sources does, if there is a compiler. -/
  processPython : Option (CryptKey → FileTree → FileTree)
  randomKey : CryptKey
  /-- The pieces in which `io::copy` hands over a content. -/
  pieces : Bytes → List Bytes
  dirOrder : PathBuf → Order (List Char)
  dataOrder : Order PathBuf
  ageOrder : PathBuf → Order PathBuf
  secureOrder : Order PathBuf
  clientOrder : PathBuf → Order PathBuf

/-! ### Files of the data directory -/

def ignoreFile (path : PathBuf) (allowCompressed : Bool) : Bool :=
  (!allowCompressed && path.extension == some "gz".toList) ||
    match path.fileName with
    | some name => name == "desktop.ini".toList || name.head? == some '.'
    | none => false

/-- `scan_dir`, which warns of what is not a regular file, and takes it along. -/
def scanDir (site : Site) (path : PathBuf) (t : FileTree) (fileSet : HashSet PathBuf) :
    Except Fault (HashSet PathBuf) :=
  match t.readDir path with
  | .error e => .error (ioFault e)
  | .ok names => .ok (((site.dirOrder path).run names).foldl
      (fun fileSet name =>
        if ignoreFile (path.child name) false then fileSet else fileSet.add (path.child name))
      fileSet)

def isSecurePreloaderFile (path : PathBuf) : Bool :=
  path.extension == some "sdl".toList || path.extension == some "pak".toList

def defaultKey : CryptKey := ![0x6c0a5452, 0x03827d0f, 0x3a170b92, 0x16db7fc2]

def loadOrCreateNtdKey (site : Site) : Job FileTree Fault CryptKey := fun t =>
  let keyPath := site.dataRoot.child ".ntd_server.key".toList
  match t.read keyPath with
  | .ok content =>
    if content.length < 16 then (.error .eof, t)
    else (.ok fun i => (ShaDigest.beWords (content.take 16)).getD i 0, t)
  | .error .notFound =>
    match t.write keyPath ((List.ofFn site.randomKey).flatMap fun v =>
        ShaDigest.beBytes 4 v.toNat) with
    | .error e => (.error (ioFault e), t)
    | .ok t => (.ok site.randomKey, t)
  | .error e => (.error (ioFault e), t)

/-- `encrypt_file`; a failure is only warned of. -/
def encryptIn (site : Site) (encryptionType : EncryptionType) (key : CryptKey) (path : PathBuf)
    (t : FileTree) : FileTree :=
  match t.read path with
  | .error _ => t
  | .ok content =>
    (t.write path (contentAfterEncryptFile site.pieces encryptionType key content)).toOption.getD t

/-- Encrypt what external clients are to have in encrypted form only. -/
def encryptData (site : Site) (ntdKey : CryptKey) (t : FileTree) (file : PathBuf) : FileTree :=
  match file.extension with
  | none => t
  | some ext =>
    if ext = "age".toList ∨ ext = "fni".toList ∨ ext = "csv".toList then
      encryptIn site .tea defaultKey file t
    else if ext = "sdl".toList then encryptIn site .xxtea ntdKey file t
    else t

/-- The first half of `cache_clients`: collect the game's data, and prepare it. -/
def collectGameData (site : Site) : Job FileTree Fault (HashSet PathBuf) := do
  let ntdKey ← loadOrCreateNtdKey site
  let gameDataFiles ← Job.fold (fun gameDataFiles (dataDir : String) => do
      let t ← Job.get
      let srcDir := site.dataRoot.child dataDir.toList
      if t.isDir srcDir then Job.lift (scanDir site srcDir t gameDataFiles)
      else pure gameDataFiles)
    (∅ : HashSet PathBuf) ["avi", "dat", "sfx", "SDL"]
  let t ← Job.get
  let pythonDir := site.dataRoot.child "Python".toList
  let pythonPak := pythonDir.child "Python.pak".toList
  let gameDataFiles ←
    if t.contains pythonDir then do
      Job.modify fun t => match site.processPython with
        | some process => process ntdKey t
        | none => t
      let t ← Job.get
      pure (if t.contains pythonPak then gameDataFiles.add pythonPak else gameDataFiles)
    else pure gameDataFiles
  Job.modify fun t => (site.dataOrder.run gameDataFiles.keys).foldl (encryptData site ntdKey) t
  pure gameDataFiles

/-! ### The cache -/

abbrev Cache := HashMap PathBuf FileInfo

inductive Event
  | update (tree : FileTree) (cache : Cache) (file : FileInfo)
  | create (tree : FileTree) (cache : Cache) (path : PathBuf)
  | settle (tree : FileTree) (cache : Cache) (path : PathBuf) (manifest : Manifest)
  deriving DecidableEq

structure DataCache where
  tree : FileTree
  cache : Cache
  sfxFlags : HashMap PathBuf UInt32
  log : List Event

def Event.manifest? : Event → Option (PathBuf × Manifest)
  | .settle _ _ path m => some (path, m)
  | _ => none

namespace DataCache

/-- The manifests that were processed, as they were in memory in the end. -/
def processed (s : DataCache) : List (PathBuf × Manifest) := s.log.filterMap Event.manifest?

/-- Those of them that were written. -/
def written (s : DataCache) : List (PathBuf × Manifest) :=
  s.processed.filter fun pm => pm.2.anyUpdated

end DataCache

abbrev Work := Job DataCache Fault

section Manifests

variable (site : Site)

/-- The entry `update_cache_file` puts into the cache, and the files. -/
def updatedEntry (file : FileInfo) (t : FileTree) : FileInfo × FileTree :=
  match file.update (treeOps site.tools) site.dataRoot t with
  | (.error (.io .notFound), file, t) => (file.markDeleted, t)
  | (_, file, t) => (file, t)

def updateCacheFile (file : FileInfo) : Work FileInfo := fun s =>
  let srcPath := file.sourcePath site.dataRoot
  let log := s.log ++ [.update s.tree s.cache file]
  match s.cache.lookup srcPath with
  | some cached => (.ok cached, { s with log })
  | none =>
    let (file, tree) := updatedEntry site file s.tree
    (.ok file, { s with tree, cache := s.cache.insert srcPath file, log })

/-- The path under which the client has a file. -/
def clientPath (srcPath : PathBuf) : Except Fault String :=
  if srcPath.startsWith (.ofText "client".toList) then
    match srcPath.fileName with
    | some name => .ok (String.ofList name)
    | none => .error (.panic "called `Option::unwrap()` on a `None` value")
  else .ok (String.ofList (toWindows srcPath.text))

/-- The entry `create_cache_file` puts into the cache, and the files. -/
def createdEntry (clientPath : String) (srcPath : PathBuf) (t : FileTree) : FileInfo × FileTree :=
  ((FileInfo.new clientPath srcPath.text).update (treeOps site.tools) site.dataRoot t).2

def createCacheFile (path : PathBuf) : Work FileInfo := fun s =>
  match path.stripPrefix site.dataRoot with
  | none => (.error (.panic "called `Result::unwrap()` on an `Err` value: StripPrefixError(())"), s)
  | some srcPath => match clientPath srcPath with
    | .error e => (.error e, s)
    | .ok clientPath =>
      let log := s.log ++ [.create s.tree s.cache path]
      match s.cache.lookup path with
      | some cached => (.ok cached, { s with log })
      | none =>
        let (file, tree) := createdEntry site clientPath srcPath s.tree
        (.ok file, { s with tree, cache := s.cache.insert path file, log })

/-- `add_flags`, on the entry `file` that is in the cache under `path`. -/
def addFlags (path : PathBuf) (file : FileInfo) (flags : UInt32) : Work FileInfo := fun s =>
  (.ok (file.addFlags flags), { s with cache := s.cache.insert path (file.addFlags flags) })

def loadOrCreateManifest (path : PathBuf) : Work Manifest := fun s =>
  (Manifest.loadOrCreate site.tools.hex path s.tree, s)

/-- The loop over the entries that a manifest has. -/
def updateFiles : List FileInfo → HashSet PathBuf → Work (List FileInfo × HashSet PathBuf)
  | [], expected => pure ([], expected)
  | file :: files, expected => do
    let file ← updateCacheFile site file
    let (files, expected) ← updateFiles files (expected.erase (file.sourcePath site.dataRoot))
    pure (file :: files, expected)

/-- Write a manifest if one of its entries was updated. -/
def settle (path : PathBuf) (m : Manifest) : Work Unit := fun s =>
  let log := s.log ++ [.settle s.tree s.cache path m]
  if m.anyUpdated then
    let (result, tree) := m.writeCache path s.tree
    (result, { s with tree, log })
  else (.ok (), { s with log })

def mfsPath (name : List Char) : PathBuf := site.dataRoot.child (name ++ ".mfs_cache".toList)

/-! ### Ages -/

/-- What the pages of an age were found to need. -/
structure Expected where
  files : HashSet PathBuf
  sfxFlags : HashMap PathBuf UInt32
  hasRelevance : Bool

def Expected.addSound (t : FileTree) (e : Expected) (obj : SoundBuffer) : Expected :=
  let sfxPath := (site.dataRoot.child "sfx".toList).join (.ofText obj.fileName.toList)
  let subFile := sfxPath.withExtension "sub".toList
  let files := e.files.add sfxPath
  { e with
    files := if t.contains subFile then files.add subFile else files
    sfxFlags := match e.sfxFlags.lookup sfxPath with
      | some _ => e.sfxFlags
      | none => e.sfxFlags.insert sfxPath (FileInfo.oggFlags obj) }

def Expected.addPage (t : FileTree) (ageName : List Char) (e : Expected) (page : String) :
    Except Fault Expected :=
  let pagePath := (site.dataRoot.child "dat".toList).join
    (.ofText (ageName ++ "_District_".toList ++ page.toList ++ ".prp".toList))
  if t.contains pagePath then do
    let content ← (t.read pagePath).mapError ioFault
    let page ← site.pageFile content
    let e := page.sounds.foldl (Expected.addSound site t) { e with files := e.files.add pagePath }
    pure { e with hasRelevance := e.hasRelevance || page.hasRelevance }
  else .ok e

def expectedFiles (ageFile : PathBuf) (ageName : List Char) (t : FileTree)
    (sfxFlags : HashMap PathBuf UInt32) : Except Fault Expected := do
  let files := (∅ : HashSet PathBuf).add ageFile
  let fniPath := ageFile.withExtension "fni".toList
  let files := if t.contains fniPath then files.add fniPath else files
  let content ← (t.read ageFile).mapError ioFault
  let pages ← site.agePages content
  let e ← pages.foldlM (Expected.addPage site t ageName) ⟨files, sfxFlags, false⟩
  pure (if e.hasRelevance then
    { e with files := e.files.add (ageFile.withExtension "csv".toList) } else e)

def addAgeFile (mfs : Manifest) (path : PathBuf) : Work Manifest := do
  let file ← createCacheFile site path
  if path.extension = some "ogg".toList then
    let s ← Job.get
    match s.sfxFlags.lookup path with
    | none => Job.fail (.panic "Got SFX file with no .ogg flags")
    | some flags =>
      let file ← addFlags path file flags
      pure (mfs.add file)
  else pure (mfs.add file)

/-- A manifest of files that are all treated alike. -/
def processManifest (path : PathBuf) (addFile : Manifest → PathBuf → Work Manifest)
    (order : Order PathBuf) (expected : HashSet PathBuf) : Work Unit := do
  let mfs ← loadOrCreateManifest site path
  let (files, expected) ← updateFiles site mfs.files expected
  let mfs ← Job.fold addFile ⟨files⟩ (order.run expected.keys)
  settle path mfs

def processAge (ageFile : PathBuf) : Work Unit := do
  match ageFile.fileStem with
  | none => Job.fail (.panic "called `Option::unwrap()` on a `None` value")
  | some ageName =>
    let s ← Job.get
    let e ← Job.lift (expectedFiles site ageFile ageName s.tree s.sfxFlags)
    Job.modify fun s => { s with sfxFlags := e.sfxFlags }
    processManifest site (mfsPath site ageName) (addAgeFile site) (site.ageOrder ageFile) e.files

/-! ### The secure preloader -/

def addSecureFile (mfs : Manifest) (path : PathBuf) : Work Manifest := do
  let file ← createCacheFile site path
  pure (mfs.add file)

def processSecure (gameDataFiles : List PathBuf) : Work Unit :=
  processManifest site (mfsPath site "SecurePreloader".toList) (addSecureFile site)
    site.secureOrder ((gameDataFiles.filter isSecurePreloaderFile).foldl HashSet.add ∅)

/-! ### Client builds -/

structure ClientManifests where
  patcher : Manifest
  thin : Manifest
  full : Manifest

def toAsciiLowercase (s : List Char) : List Char :=
  s.map fun c => if 'A' ≤ c ∧ c ≤ 'Z' then Char.ofNat (c.toNat + 32) else c

/-- Files that only the full client needs from the start. -/
def onlyFull (path : PathBuf) : Bool :=
  path.extension == some "prp".toList || path.extension == some "fni".toList ||
    path.extension == some "csv".toList || path.extension == some "ogg".toList ||
    path.extension == some "sub".toList

def addClientFile (mfs : ClientManifests) (path : PathBuf) : Work ClientManifests := do
  let file ← createCacheFile site path
  let clientPathLower := toAsciiLowercase file.clientPath.toList
  if "vcredist".toList <:+: clientPathLower then
    let file ← addFlags path file FileInfo.redistUpdate
    pure { mfs with patcher := mfs.patcher.add file }
  else if "launcher".toList <:+: clientPathLower then
    pure { mfs with patcher := mfs.patcher.add file }
  else if onlyFull path then pure { mfs with full := mfs.full.add file }
  else pure { mfs with thin := mfs.thin.add file, full := mfs.full.add file }

def processClient (gameDataFiles : HashSet PathBuf) (build suffix : List Char)
    (clientDataDir : PathBuf) : Work Unit := do
  let s ← Job.get
  let srcDir := site.dataRoot.join clientDataDir
  if s.tree.isDir srcDir then
    let clientFiles ← Job.lift (scanDir site srcDir s.tree gameDataFiles)
    let patcherPath := mfsPath site (build ++ "Patcher".toList ++ suffix)
    let thinPath := mfsPath site ("Thin".toList ++ build ++ suffix)
    let fullPath := mfsPath site (build ++ suffix)
    let patcher ← loadOrCreateManifest site patcherPath
    let thin ← loadOrCreateManifest site thinPath
    let full ← loadOrCreateManifest site fullPath
    let (patcherFiles, clientFiles) ← updateFiles site patcher.files clientFiles
    let (thinFiles, clientFiles) ← updateFiles site thin.files clientFiles
    let (fullFiles, clientFiles) ← updateFiles site full.files clientFiles
    let mfs ← Job.fold (addClientFile site) ⟨⟨patcherFiles⟩, ⟨thinFiles⟩, ⟨fullFiles⟩⟩
      ((site.clientOrder srcDir).run clientFiles.keys)
    settle patcherPath mfs.patcher
    settle thinPath mfs.thin
    settle fullPath mfs.full
  else pure ()

def clientTypes : List (List Char × List Char × PathBuf) :=
  [("Internal".toList, [], .ofText "client/windows_ia32/internal".toList),
    ("External".toList, [], .ofText "client/windows_ia32/external".toList),
    ("Internal".toList, "_x64".toList, .ofText "client/windows_x64/internal".toList),
    ("External".toList, "_x64".toList, .ofText "client/windows_x64/external".toList)]

/-- The second half of `cache_clients`. -/
def makeManifests (gameDataFiles : HashSet PathBuf) : Work Unit := do
  let files := site.dataOrder.run gameDataFiles.keys
  Job.fold (fun _ ageFile => processAge site ageFile) ()
    (files.filter fun f => f.extension == some "age".toList)
  processSecure site files
  Job.fold (fun _ c => processClient site gameDataFiles c.1 c.2.1 c.2.2) () clientTypes

/-- `cache_clients`, with the files and the record of what was done. -/
def cacheClients (t : FileTree) : Except Fault Unit × DataCache :=
  match collectGameData site t with
  | (.error e, t) => (.error e, ⟨t, ∅, ∅, []⟩)
  | (.ok gameDataFiles, t) => makeManifests site gameDataFiles ⟨t, ∅, ∅, []⟩

end Manifests

/-- Surroundings with which runs can be evaluated that need no `.age` files. -/
def Site.plain : Site where
  dataRoot := .ofText "data".toList
  tools := .plain
  agePages _ := .error .eof
  pageFile _ := .error .eof
  processPython := none
  randomKey _ := 0
  pieces bs := [bs]
  dirOrder _ := .listed _
  dataOrder := .listed _
  ageOrder _ := .listed _
  secureOrder := .listed _
  clientOrder _ := .listed _

/-- The code, and a client build. -/
def pakTree : FileTree := .ofList
  [("data", .dir), ("data/.ntd_server.key", .file (List.replicate 16 0)), ("data/Python", .dir),
    ("data/Python/Python.pak", .file [1, 2, 3]), ("data/client", .dir),
    ("data/client/windows_ia32", .dir), ("data/client/windows_ia32/internal", .dir),
    ("data/client/windows_ia32/internal/plClient.exe", .file [4, 5])]

def pakEntry : FileInfo :=
  ⟨"Python\\Python.pak", "Python\\Python.pak", Tools.plain.md5 [1, 2, 3],
    Tools.plain.md5 [1, 2, 3], 3, 3, 0, true, false⟩

def exeEntry : FileInfo :=
  ⟨"plClient.exe", "client\\windows_ia32\\internal\\plClient.exe", Tools.plain.md5 [4, 5],
    Tools.plain.md5 [4, 5], 2, 2, 0, true, false⟩

end Moulars.FileSrv
