import Moulars.Auth.Worker
import Moulars.FileSrv.DataCache
import Moulars.Lib.Components

/-!
The file server's worker for one client.

As for the auth server, a worker is a program over what it does with its client and the file
system. Whatever file name a client sends, the path that is opened for it is below the data root.
-/

namespace Moulars.FileSrv

open Lib.Wire Lib.Clients Lib.Paths Lib.Files Vault
open Auth (ServerConfig toNative)

/-! ### Messages -/

inductive CliToFile
  | pingRequest (pingTime : UInt32)
  | buildIdRequest (transId : UInt32)
  | manifestRequest (transId : UInt32) (manifestName : String) (buildId : UInt32)
  | downloadRequest (transId : UInt32) (filename : String) (buildId : UInt32)
  | manifestEntryAck (transId readerId : UInt32)
  | downloadChunkAck (transId readerId : UInt32)

/-- The messages the file server sends; `BuildIdUpdate` never is. -/
inductive FileToCli
  | pingReply (pingTime : UInt32)
  | buildIdReply (transId : UInt32) (result : Int32) (buildId : UInt32)
  | manifestReply (transId : UInt32) (result : Int32) (readerId : UInt32) (manifest : Manifest)
  | fileDownloadReply (transId : UInt32) (result : Int32) (readerId totalSize : UInt32)
      (fileData : Bytes)

namespace FileToCli

def manifestError (transId : UInt32) (result : NetResultCode) : FileToCli :=
  .manifestReply transId result.code 0 .new

def downloadError (transId : UInt32) (result : NetResultCode) : FileToCli :=
  .fileDownloadReply transId result.code 0 0 []

end FileToCli

/-! ### The worker -/

inductive FileCall
  /-- `send_message`: whether it succeeded -/
  | send (reply : FileToCli)
  /-- `client_reader_id` is counted up; its new value -/
  | nextReaderId
  | pathExists (path : Path)
  /-- `Manifest::from_cache`, or none if that fails -/
  | fromCache (path : Path)
  /-- the size of a file and what reading it returns read by read, a failure as none; none if
  the file cannot be opened -/
  | openFile (path : Path)

@[reducible] def FileCall.Reply : FileCall → Type
  | .send _ => Bool
  | .nextReaderId => UInt32
  | .pathExists _ => Bool
  | .fromCache _ => Option Manifest
  | .openFile _ => Option (UInt64 × List (Option Bytes))

abbrev FileProg := Prog FileCall.Reply Empty

def call (c : FileCall) : FileProg c.Reply := Prog.call (R := FileCall.Reply) c

def sendMessage (reply : FileToCli) : FileProg Bool := call (.send reply)

def fetchManifest (manifestName : String) (dataPath : Path) : FileProg (Option Manifest) :=
  -- anything that looks like a path is rejected
  if manifestName.toList.any fun ch => ch ∈ ['/', '\\', ':', '.'] then pure none
  else do
    let manifestPath := join dataPath (manifestName.toList ++ ".mfs_cache".toList)
    if ← call (.pathExists manifestPath) then call (.fromCache manifestPath) else pure none

def openServerFile (filename : String) (dataRoot : Path) :
    FileProg (Option (UInt64 × List (Option Bytes))) :=
  let downloadPath := join dataRoot (toNative filename.toList)
  if ['.', '.'] <:+: filename.toList ∨ startsWith downloadPath dataRoot = false then pure none
  else do
    if !(← call (.pathExists downloadPath)) || ignoreFile (.ofText downloadPath) true then pure none
    else call (.openFile downloadPath)

/-- The loop of `do_download` over what the reads return; a read of nothing is the end. -/
def sendChunks (transId readerId totalSize : UInt32) : List (Option Bytes) → FileProg Bool
  | [] => pure true
  | some [] :: _ => pure true
  | some chunk :: reads => do
    if ← sendMessage (.fileDownloadReply transId NetResultCode.netSuccess.code readerId totalSize
      chunk) then sendChunks transId readerId totalSize reads
    else pure false
  | none :: _ => sendMessage (.downloadError transId .netInternalError)

def doDownload (dataRoot : Path) (transId : UInt32) (filename : String) : FileProg Bool := do
  match ← openServerFile filename dataRoot with
  | some (size, reads) =>
    if size.toNat < 2 ^ 32 then do
      let readerId ← call .nextReaderId
      sendChunks transId readerId (UInt32.ofNat size.toNat) reads
    else sendMessage (.downloadError transId .netInternalError)
  | none => sendMessage (.downloadError transId .netFileNotFound)

def doManifest (dataRoot : Path) (transId : UInt32) (manifestName : String) : FileProg Bool := do
  match ← fetchManifest manifestName dataRoot with
  | some manifest => do
    let readerId ← call .nextReaderId
    sendMessage (.manifestReply transId NetResultCode.netSuccess.code readerId manifest)
  | none => sendMessage (.manifestError transId .netFileNotFound)

def handleMessage (config : ServerConfig) : CliToFile → FileProg Bool
  | .pingRequest pingTime => sendMessage (.pingReply pingTime)
  | .buildIdRequest transId =>
    sendMessage (.buildIdReply transId NetResultCode.netSuccess.code config.buildId)
  | .manifestRequest transId manifestName buildId =>
    if buildId ≠ 0 ∧ buildId ≠ config.buildId then
      sendMessage (.manifestError transId .netOldBuildId)
    else doManifest config.dataRoot transId manifestName
  | .downloadRequest transId filename buildId =>
    if buildId ≠ 0 ∧ buildId ≠ config.buildId then
      sendMessage (.downloadError transId .netOldBuildId)
    else doDownload config.dataRoot transId filename
  | .manifestEntryAck .. => pure true
  | .downloadChunkAck .. => pure true

/-- The loop of `run`, on the messages that are read before the client is gone. -/
def run (config : ServerConfig) : List CliToFile → FileProg Unit
  | [] => pure ()
  | message :: messages => do
    if ← handleMessage config message then run config messages else pure ()

/-! ### What is opened -/

def keyName : List Char := ".ntd_server.key".toList

/-- A path that may be opened: it goes on from the data root without a `..`, and where it ends in
a name, that is none of an ignored file. -/
structure Contained (dataRoot path : Path) : Prop where
  below : ∃ rest, components path = components dataRoot ++ rest ∧ Component.parentDir ∉ rest
  name : ∀ name, (components path).getLast? = some (.normal name) →
    name.head? ≠ some '.' ∧ name ≠ "desktop.ini".toList
  /-- A path that ends in `..` is the data root itself. -/
  parentDir : (components path).getLast? = some .parentDir → components path = components dataRoot
  /-- A path that ends in `.` is the current directory, and so is the data root. -/
  curDir : (components path).getLast? = some .curDir →
    components path = [.curDir] ∧ (components dataRoot = [.curDir] ∨ components dataRoot = [])
  /-- Where it leads to a file, it is another one than the key. -/
  noKey : components path ≠ components (join dataRoot keyName) ∧
    (fileName path ≠ none →
      ∀ t : FileTree, t.Apart (.ofText path) (.ofText (join dataRoot keyName)))

section Containment

variable {filename dataRoot : List Char}

lemma infix_toNative (h : ['.', '.'] <:+: toNative filename) : ['.', '.'] <:+: filename := by
  have hdot (c : Char) (hc : (if c = '\\' then '/' else c) = '.') : c = '.' := by
    split at hc
    · cases hc
    · exact hc
  obtain ⟨before, after, hsplit⟩ := h
  obtain ⟨front, last, rfl, hfront, -⟩ := List.map_eq_append_iff.1 hsplit.symm
  obtain ⟨first, dots, rfl, -, hdots⟩ := List.map_eq_append_iff.1 hfront
  obtain ⟨a, dots, rfl, ha, hdots⟩ := List.map_eq_cons_iff.1 hdots
  obtain ⟨b, dots, rfl, hb, hdots⟩ := List.map_eq_cons_iff.1 hdots
  obtain rfl := List.map_eq_nil_iff.1 hdots
  exact ⟨first, last, by rw [hdot a ha, hdot b hb]⟩

lemma parentDir_of_join {rest : List Component}
    (h : components (join dataRoot (toNative filename)) = components dataRoot ++ rest)
    (hrest : Component.parentDir ∈ rest) :
    Component.parentDir ∈ components (toNative filename) := by
  by_cases hroot : hasRoot (toNative filename) = true
  · rw [join, if_pos hroot] at h
    rw [h]
    exact List.mem_append_right _ hrest
  · rw [Bool.not_eq_true] at hroot
    by_cases hbase : dataRoot = []
    · subst hbase
      have hjoin : join [] (toNative filename) = toNative filename := by simp [join]
      rw [hjoin] at h
      rw [h]
      exact List.mem_append_right _ hrest
    · rw [components_join hbase hroot] at h
      rw [components, List.append_cancel_left h]
      exact List.mem_append_right _ hrest

lemma getLast?_keyPath (dataRoot : Path) :
    (components (join dataRoot keyName)).getLast? = some (.normal keyName) := by
  rw [getLast?_components, fileName, parts_join (by decide)]
  have hparts : parts keyName = [.normal keyName] := by decide
  rw [hparts, List.getLast?_concat]

lemma apart_keyPath {path : Path} {name : List Char} (hname : fileName path = some name)
    (hdot : name.head? ≠ some '.') (t : FileTree) :
    t.Apart (.ofText path) (.ofText (join dataRoot keyName)) := by
  have hdirs {path : Path} {name : List Char} (h : fileName path = some name) :
      ∃ dir : PathBuf, PathBuf.ofText path = dir.child name := PathBuf.eq_child_of_fileName h
  obtain ⟨dir, hdir⟩ := hdirs hname
  obtain ⟨keyDir, hkey⟩ := hdirs (getLast?_components.1 (getLast?_keyPath dataRoot))
  rw [hdir, hkey]
  refine FileTree.apart_child ?_
  rintro rfl
  exact hdot (by decide)

/-- **What passes the checks is contained in the data root.** -/
lemma contained_of_checks (hdots : ¬ ['.', '.'] <:+: filename)
    (hstart : startsWith (join dataRoot (toNative filename)) dataRoot = true)
    (hignore : ignoreFile (.ofText (join dataRoot (toNative filename))) true = false) :
    Contained dataRoot (join dataRoot (toNative filename)) := by
  obtain ⟨rest, hrest⟩ := of_decide_eq_true hstart
  have hparent : Component.parentDir ∉ rest := fun hmem =>
    hdots (infix_toNative (infix_of_parentDir (parentDir_of_join hrest.symm hmem)))
  have hlast : ∀ name, (components (join dataRoot (toNative filename))).getLast? =
      some (.normal name) → name.head? ≠ some '.' ∧ name ≠ "desktop.ini".toList := by
    intro name hname
    have hfile : (PathBuf.ofText (join dataRoot (toNative filename))).fileName = some name :=
      getLast?_components.1 hname
    simp only [ignoreFile, Bool.not_true, Bool.false_and, Bool.false_or, hfile,
      Bool.or_eq_false_iff, beq_eq_false_iff_ne] at hignore
    exact ⟨hignore.2, hignore.1⟩
  refine ⟨⟨rest, hrest.symm, hparent⟩, hlast, fun h => ?_, fun h => ?_, fun h => ?_, ?_⟩
  · -- nothing is named behind the data root
    rcases List.eq_nil_or_concat rest with rfl | ⟨more, c, rfl⟩
    · rw [← hrest, List.append_nil]
    · rw [← hrest, List.concat_eq_append, ← List.append_assoc, List.getLast?_concat] at h
      exact absurd (by simp [Option.some.inj h]) hparent
  · have hcur := components_of_curDir h
    refine ⟨hcur, ?_⟩
    rcases List.append_eq_singleton_iff.1 (hrest.trans hcur) with ⟨hroot, -⟩ | ⟨hroot, -⟩
    · exact .inr hroot
    · exact .inl hroot
  · have hkey := getLast?_keyPath dataRoot
    rw [← h] at hkey
    exact (hlast _ hkey).1 (by decide)
  · intro hname t
    obtain ⟨name, hname⟩ := Option.ne_none_iff_exists'.1 hname
    exact apart_keyPath hname (hlast name (getLast?_components.2 hname)).1 t

end Containment

/-- Every path that is opened has the property. -/
def FileCall.Opens (P : Path → Prop) : FileCall → Prop
  | .openFile path => P path
  | _ => True

section Programs

variable {P : Path → Prop}

lemma only_sendMessage (reply : FileToCli) : (sendMessage reply).Only (FileCall.Opens P) :=
  ⟨trivial, fun _ => trivial⟩

lemma only_openServerFile (filename : String) (dataRoot : Path) :
    (openServerFile filename dataRoot).Only (FileCall.Opens (Contained dataRoot)) := by
  rw [openServerFile]
  split
  · trivial
  · rename_i hchecks
    rw [not_or, Bool.not_eq_false] at hchecks
    refine Prog.Only.call_bind trivial fun found => ?_
    split
    · trivial
    · rename_i hfound
      rw [Bool.not_eq_true, Bool.or_eq_false_iff] at hfound
      exact ⟨contained_of_checks hchecks.1 hchecks.2 hfound.2, fun _ => trivial⟩

lemma only_sendChunks (transId readerId totalSize : UInt32) (reads : List (Option Bytes)) :
    (sendChunks transId readerId totalSize reads).Only (FileCall.Opens P) := by
  fun_induction sendChunks transId readerId totalSize reads with
  | case1 => trivial
  | case2 => trivial
  | case3 chunk reads _ ih =>
    refine (only_sendMessage _).bind fun sent => ?_
    split
    · exact ih
    · trivial
  | case4 => exact only_sendMessage _

lemma only_doDownload (dataRoot : Path) (transId : UInt32) (filename : String) :
    (doDownload dataRoot transId filename).Only (FileCall.Opens (Contained dataRoot)) := by
  refine (only_openServerFile filename dataRoot).bind fun opened => ?_
  split
  · split
    · exact Prog.Only.call_bind trivial fun readerId => only_sendChunks ..
    · exact only_sendMessage _
  · exact only_sendMessage _

lemma only_doManifest (dataRoot : Path) (transId : UInt32) (manifestName : String) :
    (doManifest dataRoot transId manifestName).Only (FileCall.Opens P) := by
  have hfetch : (fetchManifest manifestName dataRoot).Only (FileCall.Opens P) := by
    rw [fetchManifest]
    split
    · trivial
    · refine Prog.Only.call_bind trivial fun found => ?_
      split
      · exact ⟨trivial, fun _ => trivial⟩
      · trivial
  refine hfetch.bind fun manifest => ?_
  split
  · exact Prog.Only.call_bind trivial fun readerId => only_sendMessage _
  · exact only_sendMessage _

lemma only_handleMessage (config : ServerConfig) (message : CliToFile) :
    (handleMessage config message).Only (FileCall.Opens (Contained config.dataRoot)) := by
  cases message with
  | pingRequest pingTime => exact only_sendMessage _
  | buildIdRequest transId => exact only_sendMessage _
  | manifestRequest transId manifestName buildId =>
    rw [handleMessage]
    split
    · exact only_sendMessage _
    · exact only_doManifest ..
  | downloadRequest transId filename buildId =>
    rw [handleMessage]
    split
    · exact only_sendMessage _
    · exact only_doDownload ..
  | manifestEntryAck transId readerId => trivial
  | downloadChunkAck transId readerId => trivial

lemma only_run (config : ServerConfig) (messages : List CliToFile) :
    (run config messages).Only (FileCall.Opens (Contained config.dataRoot)) := by
  induction messages with
  | nil => trivial
  | cons message messages ih =>
    refine (only_handleMessage config message).bind fun goOn => ?_
    split
    · exact ih
    · trivial

end Programs

/-- **Nothing outside the data root is opened**, whatever file name is asked for, and whatever
messages a client sends. -/
theorem opened_contained (config : ServerConfig) :
    (∀ filename, (openServerFile filename config.dataRoot).Only
      (FileCall.Opens (Contained config.dataRoot))) ∧
    ∀ messages, (run config messages).Only (FileCall.Opens (Contained config.dataRoot)) :=
  ⟨fun filename => only_openServerFile filename config.dataRoot, only_run config⟩

/-- With a data root that ends in `..`, the empty file name leads to a path that does. -/
theorem emptyName_opens_parentDir : ¬ (openServerFile "" "..".toList).Only
    (FileCall.Opens fun path => ∀ c, (components path).getLast? = some c →
      c.text.head? ≠ some '.') := by
  rw [openServerFile, if_neg (by decide)]
  intro h
  have hopen := h.2 true
  change Prog.Only _ (if (!true || ignoreFile (.ofText "../".toList) true) = true then pure none
    else call (.openFile "../".toList)) at hopen
  rw [if_neg (by decide)] at hopen
  exact hopen.1 .parentDir (by decide) (by decide)

end Moulars.FileSrv
