import Moulars.Auth.SecureFiles
import Moulars.FileSrv.Server

/-!
Downloads, from either server.

A file is sent in the pieces in which it happens to be read. All the bytes arrive, with their
offsets from the auth server; but a file without bytes is read in no pieces at all, and nothing
is sent for it.
-/

namespace Moulars.FileSrv

open Lib.Wire Lib.Clients Lib.Paths Vault
open Auth (ServerConfig AuthServerWorker AuthToCli Surroundings Connection SdlHost toNative)

lemma chunks_ne_nil_iff {content : Bytes} {chunks : List Bytes} (h : chunks.flatten = content)
    (hne : ∀ chunk ∈ chunks, chunk ≠ []) : chunks ≠ [] ↔ content ≠ [] := by
  cases chunks with
  | nil => simp [← h]
  | cons chunk chunks => simp [← h, hne chunk (by simp)]

/-! ### The auth server -/

/-- The messages carry all of the data from the offset on, and end with the total size. -/
def Carries (transId totalSize : UInt32) : ℕ → Bytes → List AuthToCli → Prop
  | offset, data, [] => data = [] ∧ offset = totalSize.toNat
  | offset, data, reply :: replies => ∃ (field : UInt32) (chunk rest : Bytes),
      reply = .fileDownloadChunk transId NetResultCode.netSuccess.code totalSize field chunk ∧
      field.toNat = offset ∧ data = chunk ++ rest ∧
      Carries transId totalSize (offset + chunk.length) rest replies

def AuthDelivered (transId : UInt32) (content : Bytes) (sent : List AuthToCli) : Prop :=
  sent ≠ [] ∧ ∃ totalSize : UInt32, totalSize.toNat = content.length ∧
    Carries transId totalSize 0 content sent

/-- The request is for a file with this content, which is read in some pieces, and the client
stays. -/
structure AuthServes (config : ServerConfig) (env : Surroundings) (filename : String)
    (content : Bytes) (chunks : List Bytes) : Prop where
  opened : ∃ path, Auth.downloadPath filename.toList config.dataRoot = some path ∧
    env.openFile path = some (UInt64.ofNat content.length, chunks.map some)
  content : chunks.flatten = content
  nonempty : ∀ chunk ∈ chunks, chunk ≠ []
  stays : ∀ n, env.sends n = true

/-- The offsets count the bytes sent so far; they never pass the total size. -/
lemma carries_chunkReplies (transId totalSize : UInt32) (chunks : List Bytes) (offset : UInt32)
    (h : offset.toNat + chunks.flatten.length = totalSize.toNat) :
    Carries transId totalSize offset.toNat chunks.flatten
      (Auth.chunkReplies transId totalSize offset chunks false) := by
  induction chunks generalizing offset with
  | nil => exact ⟨rfl, by simpa using h⟩
  | cons chunk chunks ih =>
    rw [List.flatten_cons, List.length_append] at h
    have hlt := totalSize.toNat_lt
    have hnext : (offset + UInt32.ofNat chunk.length).toNat = offset.toNat + chunk.length := by
      rw [UInt32.toNat_add, UInt32.toNat_ofNat_of_lt' (by rw [UInt32.size]; omega)]
      exact Nat.mod_eq_of_lt (by omega)
    refine ⟨offset, chunk, chunks.flatten, rfl, rfl, by rw [List.flatten_cons], ?_⟩
    rw [← hnext]
    exact ih _ (by omega)

section Auth

variable {X : Hashes.Crates} (sdl : SdlHost X) {config : ServerConfig} {env : Surroundings}
  {filename : String} {content : Bytes} {chunks : List Bytes}

lemma exec_authDownload (h : AuthServes config env filename content chunks)
    (hsize : content.length < 2 ^ 32) (worker : AuthServerWorker) (transId : UInt32) :
    ((Auth.handleMessage sdl config (.fileDownloadRequest transId filename)).exec env.handle
        (.start worker)).2.sent =
      Auth.chunkReplies transId (UInt32.ofNat content.length) 0 chunks false := by
  obtain ⟨path, hpath, hopen⟩ := h.opened
  have hlen : (UInt64.ofNat content.length).toNat = content.length :=
    UInt64.toNat_ofNat_of_lt' (by rw [UInt64.size]; omega)
  rw [Auth.handleMessage, Auth.doDownload, Auth.openServerFile, hpath]
  rw [Surroundings.exec_own_bind, Surroundings.ownReply, hopen]
  simp only [hlen, if_pos hsize]
  rw [← List.append_nil (chunks.map some),
    Auth.exec_sendChunks h.stays transId _ 0 h.nonempty (.inl rfl)]
  rfl

/-- **The auth server delivers exactly the files that are not empty.** -/
lemma authDelivered_iff (h : AuthServes config env filename content chunks)
    (hsize : content.length < 2 ^ 32) (worker : AuthServerWorker) (transId : UInt32) :
    AuthDelivered transId content ((Auth.handleMessage sdl config
        (.fileDownloadRequest transId filename)).exec env.handle (.start worker)).2.sent ↔
      content ≠ [] := by
  rw [exec_authDownload sdl h hsize worker transId, ← chunks_ne_nil_iff h.content h.nonempty]
  have hlen : (UInt32.ofNat content.length).toNat = content.length :=
    UInt32.toNat_ofNat_of_lt' hsize
  cases chunks with
  | nil => exact iff_of_false (fun hdelivered => hdelivered.1 rfl) (fun hne => hne rfl)
  | cons chunk chunks =>
    refine iff_of_true ⟨List.cons_ne_nil _ _, _, hlen, ?_⟩ (List.cons_ne_nil _ _)
    rw [← h.content]
    refine carries_chunkReplies transId _ (chunk :: chunks) 0 ?_
    rw [h.content]
    exact (Nat.zero_add _).trans hlen.symm

end Auth

/-! ### The file server -/

structure FileSurroundings where
  pathExists : Path → Bool
  fromCache : Path → Option Manifest
  openFile : Path → Option (UInt64 × List (Option Bytes))
  /-- whether the `n`-th message can be sent -/
  sends : ℕ → Bool

structure FileConnection where
  clientReaderId : UInt32
  sent : List FileToCli

namespace FileSurroundings

variable (env : FileSurroundings)

def handle : (c : FileCall) → FileConnection → c.Reply × FileConnection
  | .send reply, s => (env.sends s.sent.length, { s with sent := s.sent ++ [reply] })
  | .nextReaderId, s => (s.clientReaderId + 1, { s with clientReaderId := s.clientReaderId + 1 })
  | .pathExists path, s => (env.pathExists path, s)
  | .fromCache path, s => (env.fromCache path, s)
  | .openFile path, s => (env.openFile path, s)

lemma exec_call_bind {α : Type} (c : FileCall) (f : c.Reply → FileProg α) (s : FileConnection) :
    (call c >>= f).exec env.handle s =
      (f (env.handle c s).1).exec env.handle (env.handle c s).2 := rfl

end FileSurroundings

def FileDelivered (transId : UInt32) (content : Bytes) (sent : List FileToCli) : Prop :=
  sent ≠ [] ∧ ∃ (readerId totalSize : UInt32) (chunks : List Bytes),
    totalSize.toNat = content.length ∧ chunks.flatten = content ∧
    sent = chunks.map fun chunk =>
      .fileDownloadReply transId NetResultCode.netSuccess.code readerId totalSize chunk

/-- The request is for a file with this content, which is read in some pieces, and the client
stays. -/
structure FileServes (config : ServerConfig) (env : FileSurroundings) (filename : String)
    (content : Bytes) (chunks : List Bytes) : Prop where
  noDots : ¬ ['.', '.'] <:+: filename.toList
  below : startsWith (join config.dataRoot (toNative filename.toList)) config.dataRoot = true
  there : env.pathExists (join config.dataRoot (toNative filename.toList)) = true
  shown : ignoreFile (.ofText (join config.dataRoot (toNative filename.toList))) true = false
  opened : env.openFile (join config.dataRoot (toNative filename.toList)) =
    some (UInt64.ofNat content.length, chunks.map some)
  content : chunks.flatten = content
  nonempty : ∀ chunk ∈ chunks, chunk ≠ []
  stays : ∀ n, env.sends n = true

section File

variable {config : ServerConfig} {env : FileSurroundings} {filename : String} {content : Bytes}
  {chunks : List Bytes}

lemma exec_sendChunks (hstays : ∀ n, env.sends n = true) (transId readerId totalSize : UInt32)
    (hne : ∀ chunk ∈ chunks, chunk ≠ []) (s : FileConnection) :
    (sendChunks transId readerId totalSize (chunks.map some)).exec env.handle s =
      (.ok true, { s with sent := s.sent ++ chunks.map fun chunk =>
        .fileDownloadReply transId NetResultCode.netSuccess.code readerId totalSize chunk }) := by
  induction chunks generalizing s with
  | nil =>
    simp only [List.map_nil, List.append_nil]
    rfl
  | cons chunk chunks ih =>
    obtain ⟨b, bs, rfl⟩ := List.exists_cons_of_ne_nil (hne chunk (by simp))
    rw [List.map_cons, sendChunks, sendMessage, FileSurroundings.exec_call_bind,
      FileSurroundings.handle]
    · simp only [hstays, if_true]
      rw [ih fun c hc => hne c (by simp [hc])]
      simp
    · exact fun h => nomatch h

lemma exec_download (h : FileServes config env filename content chunks)
    (hsize : content.length < 2 ^ 32) {buildId : UInt32}
    (hbuild : buildId = 0 ∨ buildId = config.buildId) (clientReaderId transId : UInt32) :
    ((handleMessage config (.downloadRequest transId filename buildId)).exec env.handle
        ⟨clientReaderId, []⟩).2.sent =
      chunks.map fun chunk => .fileDownloadReply transId NetResultCode.netSuccess.code
        (clientReaderId + 1) (UInt32.ofNat content.length) chunk := by
  have hlen : (UInt64.ofNat content.length).toNat = content.length :=
    UInt64.toNat_ofNat_of_lt' (by rw [UInt64.size]; omega)
  have hbuild' : ¬ (buildId ≠ 0 ∧ buildId ≠ config.buildId) := by tauto
  have hchecks : ¬ (['.', '.'] <:+: filename.toList ∨
      startsWith (join config.dataRoot (toNative filename.toList)) config.dataRoot = false) := by
    rw [h.below]
    exact fun hor => hor.elim h.noDots nofun
  have hopened : (openServerFile filename config.dataRoot).exec env.handle ⟨clientReaderId, []⟩ =
      (.ok (some (UInt64.ofNat content.length, chunks.map some)), ⟨clientReaderId, []⟩) := by
    rw [openServerFile, if_neg hchecks, FileSurroundings.exec_call_bind, FileSurroundings.handle]
    simp only [h.there, h.shown, Bool.not_true, Bool.or_self, Bool.false_eq_true, if_false]
    rw [call, Prog.exec_call, FileSurroundings.handle, h.opened]
  rw [handleMessage, if_neg hbuild', doDownload, Prog.exec_bind_ok hopened]
  simp only [hlen, if_pos hsize]
  rw [FileSurroundings.exec_call_bind, FileSurroundings.handle,
    exec_sendChunks h.stays _ _ _ h.nonempty]
  rfl

/-- **The file server delivers exactly the files that are not empty.** -/
lemma fileDelivered_iff (h : FileServes config env filename content chunks)
    (hsize : content.length < 2 ^ 32) {buildId : UInt32}
    (hbuild : buildId = 0 ∨ buildId = config.buildId) (clientReaderId transId : UInt32) :
    FileDelivered transId content ((handleMessage config
        (.downloadRequest transId filename buildId)).exec env.handle ⟨clientReaderId, []⟩).2.sent ↔
      content ≠ [] := by
  rw [exec_download h hsize hbuild, ← chunks_ne_nil_iff h.content h.nonempty, FileDelivered, Ne,
    List.map_eq_nil_iff]
  refine and_iff_left ⟨_, _, chunks, ?_, h.content, rfl⟩
  exact UInt32.toNat_ofNat_of_lt' hsize

end File

/-- **A file is delivered by either server exactly if it is not empty**, in whatever pieces it is
read. -/
theorem delivered_iff {X : Hashes.Crates} (sdl : SdlHost X) (config : ServerConfig)
    {content : Bytes} (hsize : content.length < 2 ^ 32) (transId : UInt32) :
    (∀ env name chunks worker, AuthServes config env name content chunks →
      (AuthDelivered transId content ((Auth.handleMessage sdl config
        (.fileDownloadRequest transId name)).exec env.handle (.start worker)).2.sent ↔
          content ≠ [])) ∧
    ∀ env name chunks buildId clientReaderId, FileServes config env name content chunks →
      buildId = 0 ∨ buildId = config.buildId →
      (FileDelivered transId content ((handleMessage config (.downloadRequest transId name
        buildId)).exec env.handle ⟨clientReaderId, []⟩).2.sent ↔ content ≠ []) :=
  ⟨fun _ _ _ worker hserves => authDelivered_iff sdl hserves hsize worker transId,
    fun _ _ _ _ clientReaderId hserves hbuild =>
      fileDelivered_iff hserves hsize hbuild clientReaderId transId⟩

/-- A file server with one file of three bytes, read in two pieces, and an empty one. -/
def smallFiles : FileSurroundings where
  pathExists _ := true
  fromCache _ := none
  openFile path :=
    if path = "/data/empty.age".toList then some (0, []) else some (3, [some [1, 2], some [3]])
  sends _ := true

def smallAuthFiles : Surroundings where
  vault _ := .error .netInternalError
  ntdKey := none
  fromDir _ _ := none
  openFile path :=
    if path = "/data/SDL/empty.sdl".toList then some (0, []) else some (3, [some [1, 2], some [3]])
  newV4 := .nil
  sends _ := true

def smallConfig : ServerConfig := ⟨918, "/data".toList, false⟩

theorem smallFiles_delivered :
    AuthDelivered 7 [1, 2, 3] ((Auth.handleMessage Auth.smallSdl smallConfig
        (.fileDownloadRequest 7 "SDL\\Garden.sdl")).exec smallAuthFiles.handle
          (.start ⟨0, none, none⟩)).2.sent ∧
      FileDelivered 7 [1, 2, 3] ((handleMessage smallConfig
        (.downloadRequest 7 "dat\\Garden.age" 918)).exec smallFiles.handle ⟨0, []⟩).2.sent := by
  have hauth : AuthServes smallConfig smallAuthFiles "SDL\\Garden.sdl" [1, 2, 3] [[1, 2], [3]] :=
    ⟨⟨"/data/SDL/Garden.sdl".toList, by decide, by decide⟩, rfl, by decide, fun _ => rfl⟩
  have hfile : FileServes smallConfig smallFiles "dat\\Garden.age" [1, 2, 3] [[1, 2], [3]] :=
    ⟨by decide, by decide, rfl, by decide, by decide, rfl, by decide, fun _ => rfl⟩
  obtain ⟨hbyAuth, hbyFile⟩ := delivered_iff Auth.smallSdl smallConfig
    (by decide : ([1, 2, 3] : Bytes).length < 2 ^ 32) 7
  exact ⟨(hbyAuth _ _ _ ⟨0, none, none⟩ hauth).2 (by decide),
    (hbyFile _ _ _ 918 0 hfile (.inr rfl)).2 (by decide)⟩

/-- Nothing is sent for an empty file. -/
theorem emptyFile_unanswered :
    ((Auth.handleMessage Auth.smallSdl smallConfig
        (.fileDownloadRequest 7 "SDL\\empty.sdl")).exec smallAuthFiles.handle
          (.start ⟨0, none, none⟩)).2.sent = [] ∧
      ((handleMessage smallConfig (.downloadRequest 7 "empty.age" 918)).exec smallFiles.handle
        ⟨0, []⟩).2.sent = [] := by
  exact ⟨rfl, rfl⟩

end Moulars.FileSrv
