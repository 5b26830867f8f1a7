import Moulars.Auth.Answers
import Moulars.Auth.Connection
import Moulars.Sdl.FromDir

/-!
The files that the auth server lists and hands out, after the tool has encrypted them.

What is downloaded under a listed name is the file, unless the name has a backslash in it or begins
with a dot. With the key that a login hands out, a client gets the descriptors as they were.
-/

namespace Moulars.Auth

open Lib.Wire Lib.Paths Lib.Files Lib.Hash Lib.Clients
open Hashes Plasma FileSrv Sdl Vault

/-! ### The files of a server -/

def Manifest.fromDir (order : Order (List Char)) (dataRoot : PathBuf) (directory ext : String)
    (t : FileTree) : Option Manifest :=
  let dir := dataRoot.join (.ofText directory.toList)
  match t.readDir dir with
  | .error _ => none
  | .ok names => some ⟨(order.run names).filterMap fun name =>
      match t.read (dir.child name) with
      | .error _ => none
      | .ok content =>
        -- larger files are ignored
        if extensionOf name = some ext.toList ∧ content.length < 2 ^ 32 then
          some ⟨directory ++ "\\" ++ String.ofList name, UInt32.ofNat content.length⟩
        else none⟩

/-- A server's files, and how they are listed and read; the vault answers in any way. -/
structure FileHost where
  site : Site
  tree : FileTree
  order : Order (List Char)
  /-- what the reads of a file return -/
  reads : Bytes → List Bytes
  flatten_reads : ∀ content, (reads content).flatten = content
  ne_nil : ∀ content, ∀ piece ∈ reads content, piece ≠ []
  /-- the size of a directory -/
  dirSize : UInt64
  vault : (m : VaultMessage) → VaultReply m
  newV4 : Uuid

namespace FileHost

variable (host : FileHost)

/-- A directory can be opened, but not read. -/
def openFile (path : Path) : Option (UInt64 × List (Option Bytes)) :=
  match host.tree.find (.ofText path) with
  | .error _ => none
  | .ok .dir => some (host.dirSize, [none])
  | .ok (.file content) =>
    some (UInt64.ofNat content.length, (host.reads content).map some ++ [some []])

def surroundings : Surroundings where
  vault := host.vault
  ntdKey := (loadOrCreateNtdKey host.site host.tree).1.toOption.map fun key => List.ofFn key
  fromDir directory ext :=
    Manifest.fromDir host.order host.site.dataRoot directory ext host.tree
  openFile := host.openFile
  newV4 := host.newV4
  sends _ := true

end FileHost

def Connection.sendAll (s : Connection) (replies : List AuthToCli) : Connection :=
  { s with sent := s.sent ++ replies }

/-! ### Names -/

section Names

variable {dirName ext name : List Char}

lemma downloadPath_of_name (hcheck : checkFileRequest dirName ext = true)
    (hplain : (Part.normal name).Plain) (hext : extensionOf name = some ext) (dataRoot : Path) :
    downloadPath (dirName ++ '\\' :: name) dataRoot =
      if '\\' ∈ name ∨ name.head? = some '.' then none
      else some (join dataRoot (dirName ++ '/' :: name)) := by
  have hdir := (plainName_of_check hcheck).1
  have hsplit : (dirName ++ '\\' :: name).splitOn '\\' = dirName :: name.splitOn '\\' :=
    List.splitOn_append_cons_self_of_not_mem hdir.noBackslash name
  by_cases hback : '\\' ∈ name
  · rw [if_pos (.inl hback)]
    obtain ⟨a, b, rfl⟩ := List.append_of_mem hback
    unfold downloadPath
    rw [hsplit, List.splitOn_append_cons_self]
    have ha := List.splitOn_ne_nil '\\' a
    have hb := List.splitOn_ne_nil '\\' b
    rcases ha' : a.splitOn '\\' with _ | ⟨x, xs⟩
    · exact absurd ha' ha
    · rcases hb' : b.splitOn '\\' with _ | ⟨y, ys⟩
      · exact absurd hb' hb
      · cases xs <;> rfl
  · have hparts : (dirName ++ '\\' :: name).splitOn '\\' = [dirName, name] := by
      rw [hsplit, List.splitOn_eq_singleton hback]
    have hpath : parts (join dataRoot (dirName ++ '/' :: name)) =
        (parts dataRoot ++ [.normal dirName]) ++ [.normal name] := by
      rw [parts_join (hdir.hasRoot_append _), parts_append_slash, parts_of_notMem hdir.noSlash,
        hdir.part, parts_of_notMem (s := name) hplain.noSlash, ← List.append_assoc]
      exact congrArg _ (congrArg Option.toList hplain.ofPiece)
    have hextension : extension (join dataRoot (dirName ++ '/' :: name)) = some ext := by
      rw [extension, fileName, hpath, List.getLast?_concat]
      exact hext
    unfold downloadPath
    rw [hparts]
    dsimp only
    rw [toNative_of_splitOn hdir hparts, hextension, Option.getD_some, hcheck]
    by_cases hdot : name.head? = some '.'
    · rw [if_pos (by simp [hdot]), if_pos (.inr hdot)]
    · rw [if_neg (by simp [hdot]), if_neg (not_or.2 ⟨hback, hdot⟩)]

lemma ofText_join_name (hcheck : checkFileRequest dirName ext = true)
    (hplain : (Part.normal name).Plain) (dataRoot : Path) :
    PathBuf.ofText (join dataRoot (dirName ++ '/' :: name)) =
      ((PathBuf.ofText dataRoot).child dirName).child name := by
  have hdir := (plainName_of_check hcheck).1
  have hroot := hdir.hasRoot_append ('/' :: name)
  unfold PathBuf.ofText PathBuf.child
  rw [hasRoot_join hroot, parts_join hroot, parts_append_slash, parts_of_notMem hdir.noSlash,
    hdir.part, parts_of_notMem (s := name) hplain.noSlash, List.append_assoc]
  exact congrArg _ (congrArg _ (congrArg (List.cons _) (congrArg Option.toList hplain.ofPiece)))

lemma join_ofText_dir (hcheck : checkFileRequest dirName ext = true) (dataRoot : PathBuf) :
    dataRoot.join (.ofText dirName) = dataRoot.child dirName := by
  have hdir := (plainName_of_check hcheck).1
  have hroot : hasRoot dirName = false := by simpa using hdir.hasRoot_append []
  unfold PathBuf.join PathBuf.ofText PathBuf.child
  rw [hroot, parts_of_notMem hdir.noSlash, hdir.part]
  rfl

end Names

/-! ### Lists and downloads -/

section Replies

variable {host : FileHost} {dirName ext : String}

/-- The parts of a file are sent, whether or not the end of it is read too. -/
lemma exec_sendChunks {env : Surroundings} (hstays : ∀ n, env.sends n = true)
    (transId totalSize offset : UInt32) {chunks : List Bytes}
    (hne : ∀ chunk ∈ chunks, chunk ≠ []) {last : List (Option Bytes)}
    (hlast : last = [] ∨ last = [some []]) (s : Connection) :
    (sendChunks transId totalSize offset (chunks.map some ++ last)).exec env.handle s =
      (.ok true, s.sendAll (chunkReplies transId totalSize offset chunks false)) := by
  induction chunks generalizing offset s with
  | nil =>
    rw [Connection.sendAll, chunkReplies, if_neg (by decide), List.append_nil]
    rcases hlast with rfl | rfl <;> rfl
  | cons chunk chunks ih =>
    obtain ⟨hchunk, hne⟩ := List.forall_mem_cons.1 hne
    rw [List.map_cons, List.cons_append, sendChunks, Surroundings.exec_sendMessage_bind, hstays,
      if_pos rfl, ih _ hne]
    · simp [Connection.sendAll, Connection.send, chunkReplies]
    · exact hchunk

lemma exec_doDownload (hcheck : checkFileRequest dirName.toList ext.toList = true)
    {dataRoot : Path} (hroot : .ofText dataRoot = host.site.dataRoot) {name : List Char}
    (hplain : (Part.normal name).Plain) (hext : extensionOf name = some ext.toList)
    {content : Bytes}
    (hread : host.tree.read ((host.site.dataRoot.child dirName.toList).child name) = .ok content)
    (hlen : content.length < 2 ^ 32) (transId : UInt32) (s : Connection) :
    (doDownload dataRoot transId (dirName ++ "\\" ++ String.ofList name)).exec
        host.surroundings.handle s =
      (.ok true, s.sendAll (if '\\' ∈ name ∨ name.head? = some '.'
        then [.downloadError transId .netFileNotFound]
        else chunkReplies transId (UInt32.ofNat content.length) 0 (host.reads content) false)) := by
  have htext : (dirName ++ "\\" ++ String.ofList name).toList =
      dirName.toList ++ '\\' :: name := by
    simp
  have hpath := downloadPath_of_name hcheck hplain hext dataRoot
  by_cases hbad : '\\' ∈ name ∨ name.head? = some '.'
  · rw [if_pos hbad] at hpath ⊢
    unfold doDownload openServerFile
    rw [htext, hpath]
    rfl
  · rw [if_neg hbad] at hpath ⊢
    have hopen : host.openFile (join dataRoot (dirName.toList ++ '/' :: name)) =
        some (UInt64.ofNat content.length, (host.reads content).map some ++ [some []]) := by
      unfold FileHost.openFile
      rw [ofText_join_name hcheck hplain, hroot, FileTree.read_eq_ok.1 hread]
    have hsize : (UInt64.ofNat content.length).toNat = content.length :=
      UInt64.toNat_ofNat_of_lt' (Nat.lt_trans hlen (by decide))
    unfold doDownload openServerFile
    rw [htext, hpath]
    dsimp only
    have hcall : (own (.openFile (join dataRoot (dirName.toList ++ '/' :: name)))).exec
        host.surroundings.handle s = (.ok (some (UInt64.ofNat content.length,
          (host.reads content).map some ++ [some []])), s) := by
      rw [← hopen]
      rfl
    rw [Prog.exec_bind_ok hcall]
    dsimp only
    rw [hsize, if_pos hlen]
    exact exec_sendChunks (fun _ => rfl) transId _ 0 (host.ne_nil content) (.inr rfl) s

lemma mem_fromDir (hcheck : checkFileRequest dirName.toList ext.toList = true)
    {manifest : Manifest} (h : Manifest.fromDir host.order host.site.dataRoot dirName ext
      host.tree = some manifest) {file : FileInfo} :
    file ∈ manifest.files ↔ ∃ name content, extensionOf name = some ext.toList ∧
      host.tree.read ((host.site.dataRoot.child dirName.toList).child name) = .ok content ∧
      content.length < 2 ^ 32 ∧
      file = ⟨dirName ++ "\\" ++ String.ofList name, UInt32.ofNat content.length⟩ := by
  unfold Manifest.fromDir at h
  rw [join_ofText_dir hcheck] at h
  dsimp only at h
  split at h
  · cases h
  · rename_i names hnames
    cases h
    rw [List.mem_filterMap]
    constructor
    · rintro ⟨name, -, hname⟩
      split at hname
      · cases hname
      · rename_i content hread
        split at hname
        · rename_i hboth
          exact ⟨name, content, hboth.1, hread, hboth.2, (Option.some.inj hname).symm⟩
        · cases hname
    · rintro ⟨name, content, hext, hread, hlen, rfl⟩
      refine ⟨name, host.order.mem_run.2 ((FileTree.mem_readDir hnames).2
        ⟨_, FileTree.read_eq_ok.1 hread⟩), ?_⟩
      rw [hread]
      dsimp only
      rw [if_pos ⟨hext, hlen⟩]

lemma exec_doManifest (hcheck : checkFileRequest dirName.toList ext.toList = true)
    (hdir : host.tree.find (host.site.dataRoot.child dirName.toList) = .ok .dir)
    (transId : UInt32) (s : Connection) :
    ∃ manifest, Manifest.fromDir host.order host.site.dataRoot dirName ext host.tree =
        some manifest ∧
      (doManifest transId dirName ext).exec host.surroundings.handle s =
        (.ok true, s.send (.fileListReply transId NetResultCode.netSuccess.code manifest)) := by
  obtain ⟨names, hnames⟩ := FileTree.exists_readDir.2 hdir
  have hsome : ∃ manifest, Manifest.fromDir host.order host.site.dataRoot dirName ext host.tree =
      some manifest := by
    unfold Manifest.fromDir
    rw [join_ofText_dir hcheck]
    dsimp only
    rw [hnames]
    exact ⟨_, rfl⟩
  obtain ⟨manifest, hmanifest⟩ := hsome
  refine ⟨manifest, hmanifest, ?_⟩
  have hcall : (own (.fromDir dirName ext)).exec host.surroundings.handle s =
      (.ok (some manifest), s) := by
    rw [← hmanifest]
    rfl
  unfold doManifest fetchList
  rw [if_neg (by simp [hcheck]), Prog.exec_bind_ok hcall]
  rfl

end Replies

/-- A server on the files of `scriptTree`, after they were prepared. -/
def scriptHost : FileHost where
  site := .plain
  tree := (cacheClients .plain scriptTree).2.tree
  order := .listed _
  reads content := if content = [] then [] else [content]
  flatten_reads content := by split <;> simp_all
  ne_nil content := by split <;> simp_all
  dirSize := 0
  vault
    | .getAccount _ => .ok none
    | _ => .error .netInternalError
  newV4 := .nil

end Moulars.Auth
