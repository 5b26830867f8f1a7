import Moulars.Auth.Replies
import Moulars.Auth.Sessions

/-!
What an auth server worker says to its client.

`Answers` says which replies a message may get. A worker's program is checked once against a
contract that records what it has sent (`Talk`), whatever the vault answers: it has one group of
replies for each event that comes up, in their order.
-/

namespace Moulars.Auth

open Lib.Wire Lib.Text Lib.Clients Lib.AsyncRead
open Lib.Paths Net Vault

/-! ### What may be said -/

def playerReply (transId : UInt32) (player : PlayerInfo) : AuthToCli :=
  .acctPlayerInfo transId player.playerId player.playerName player.avatarShape player.explorer

/-- The parts of a file, each at the offset where the one before it ends, and one reply that says
that no more can be read. -/
def chunkReplies (transId totalSize : UInt32) : UInt32 → List Bytes → Bool → List AuthToCli
  | _, [], failed => if failed then [.downloadError transId .netInternalError] else []
  | offset, chunk :: chunks, failed =>
    .fileDownloadChunk transId NetResultCode.netSuccess.code totalSize offset chunk ::
      chunkReplies transId totalSize (offset + UInt32.ofNat chunk.length) chunks failed

/-- The replies that a message may get; those that are not handled get none. -/
def Answers (config : ServerConfig) (serverChallenge : UInt32) :
    CliToAuth → List AuthToCli → Prop
  | .pingRequest pingTime transId payload, replies =>
    replies = [.pingReply pingTime transId payload]
  | .clientRegisterRequest buildId, replies =>
    (buildId = 0 ∨ buildId = config.buildId) ∧ replies = [.clientRegisterReply serverChallenge]
  | .acctLoginRequest transId .., replies =>
    (∃ result, replies = [.loginError transId result]) ∨
      ∃ (players : List PlayerInfo) (account : AccountInfo) (ntdKey : List UInt32),
        replies = players.map (playerReply transId) ++ [.acctLoginReply transId
          NetResultCode.netSuccess.code account.accountId account.accountFlags account.billingType
          ntdKey]
  | .acctSetPlayerRequest transId playerId, replies => ∃ result,
    replies = [setPlayerReply transId result] ∧ (playerId = 0 → result = .netSuccess)
  | .acctCreateRequest transId .., replies =>
    replies = [.acctCreateReply transId NetResultCode.netNotSupported.code .nil]
  | .acctChangePasswordRequest transId .., replies =>
    replies = [.acctChangePasswordReply transId NetResultCode.netNotSupported.code]
  | .acctSetRolesRequest transId .., replies =>
    replies = [.acctSetRolesReply transId NetResultCode.netNotSupported.code]
  | .acctSetBillingTypeRequest transId .., replies =>
    replies = [.acctSetBillingTypeReply transId NetResultCode.netNotSupported.code]
  | .acctActivateRequest transId _, replies =>
    replies = [.acctActivateReply transId NetResultCode.netNotSupported.code]
  | .acctCreateFromKeyRequest transId .., replies =>
    replies = [.acctCreateFromKeyReply transId NetResultCode.netNotSupported.code .nil .nil]
  | .playerCreateRequest transId _ avatarShape _, replies =>
    (∃ result, replies = [.playerCreateError transId result]) ∨
      (avatarShape = "male" ∨ avatarShape = "female") ∧
        ∃ player : PlayerInfo, replies = [.playerCreateReply transId NetResultCode.netSuccess.code
          player.playerId player.explorer player.playerName player.avatarShape]
  | .upgradeVisitorRequest transId _, replies =>
    replies = [.upgradeVisitorReply transId NetResultCode.netNotSupported.code]
  | .setPlayerBanStatusRequest transId .., replies =>
    replies = [.setPlayerBanStatusReply transId NetResultCode.netServiceForbidden.code]
  | .vaultNodeCreate transId _, replies =>
    ∃ result nodeId, replies = [.vaultNodeCreated transId result nodeId]
  | .vaultNodeFetch transId _, replies =>
    ∃ result nodeBuffer, replies = [.vaultNodeFetched transId result nodeBuffer]
  | .vaultNodeAdd transId .., replies => ∃ result, replies = [.vaultAddNodeReply transId result]
  | .vaultFetchNodeRefs transId _, replies =>
    ∃ result refs, replies = [.vaultNodeRefsFetched transId result refs]
  | .vaultInitAgeRequest transId .., replies =>
    ∃ result ageVaultId ageInfoVaultId,
      replies = [.vaultInitAgeReply transId result ageVaultId ageInfoVaultId]
  | .vaultNodeFind transId _, replies =>
    ∃ result nodeIds, replies = [.vaultNodeFindReply transId result nodeIds]
  | .fileListRequest transId directory ext, replies =>
    replies = [.fileListReply transId NetResultCode.netFileNotFound.code ⟨[]⟩] ∨
      checkFileRequest directory.toList ext.toList = true ∧
        ∃ manifest, replies = [.fileListReply transId NetResultCode.netSuccess.code manifest]
  | .fileDownloadRequest transId filename, replies =>
    (∃ result, replies = [.downloadError transId result]) ∨
      (downloadPath filename.toList config.dataRoot).isSome ∧ ∃ totalSize chunks failed,
        (∀ chunk ∈ chunks, chunk ≠ []) ∧ replies = chunkReplies transId totalSize 0 chunks failed
  | .clientSetCCRLevel _, replies => replies = []
  | .kickPlayer _, replies => replies = []
  | .propagateBuffer .., replies => replies = []
  | .logPythonTraceback _, replies => replies = []
  | .logStackDump _, replies => replies = []
  | .fileDownloadChunkAck _, replies => replies = []
  | .logClientDebuggerConnect _, replies => replies = []
  | _, _ => False

/-- The client is dropped without a reply: its build is another one. -/
def Refuses (config : ServerConfig) : CliToAuth → Prop
  | .clientRegisterRequest buildId => buildId ≠ 0 ∧ buildId ≠ config.buildId
  | _ => False

/-- Handling the message can end the task with a crash: it is not implemented, or needs something of
the vault or of the SDL files that may be another than expected. -/
def MayCrash : CliToAuth → Prop
  | .acctSetPlayerRequest _ playerId => playerId ≠ 0
  | .playerDeleteRequest .. | .playerCreateRequest .. | .changePlayerNameRequest ..
  | .sendFriendInviteRequest .. | .vaultNodeSave .. | .vaultNodeDelete _ | .vaultNodeRemove ..
  | .vaultInitAgeRequest .. | .vaultSetSeen .. | .vaultSendNode .. | .ageRequest ..
  | .getPublicAgeList .. | .setAgePublic .. | .scoreCreate .. | .scoreDelete ..
  | .scoreGetScores .. | .scoreAddPoints .. | .scoreTransferPoints .. | .scoreSetPoints ..
  | .scoreGetRanks .. | .accountExistsRequest .. | .scoreGetHighScores .. => True
  | _ => False

def Answered (config : ServerConfig) (serverChallenge : UInt32) : Event → List AuthToCli → Prop
  | .message message, replies => Answers config serverChallenge message replies
  | .broadcast (some (.nodeChanged nodeId revisionId)), replies =>
    replies = [.vaultNodeChanged nodeId revisionId]
  | .broadcast (some (.nodeAdded parentId childId ownerId)), replies =>
    replies = [.vaultNodeAdded parentId childId ownerId]
  | .broadcast none, replies => replies = []
  | .readError, _ => False

/-! ### The contract -/

/-- Whether the client can be reached. -/
inductive Line
  | up
  /-- the socket takes no more bytes -/
  | cut
  /-- there was a message that cannot be written -/
  | stuck

/-- What a worker has sent, and whether its loop has ended. -/
structure Talk where
  sent : List AuthToCli
  line : Line
  left : Bool

namespace Talk

def say (l : Talk) (replies : List AuthToCli) : Talk := { l with sent := l.sent ++ replies }

lemma say_nil (l : Talk) : l.say [] = l := by simp [say]

lemma say_say (l : Talk) (replies replies' : List AuthToCli) :
    (l.say replies).say replies' = l.say (replies ++ replies') := by simp [say]

/-- `l'` is `l` after an attempt to send. -/
def Sends (l : Talk) (reply : AuthToCli) (ok : Bool) (l' : Talk) : Prop :=
  ok = true ∧ l.line = .up ∧ l' = l.say [reply] ∨
    ok = false ∧ l'.sent = l.sent ∧ l'.left = l.left ∧
      ((∃ b, reply.streamWrite = .ok b) → l'.line = .cut)

end Talk

/-- A worker sends only what a client can read, and nothing after a message that cannot be
written. -/
def talkContract (serverChallenge : UInt32) : Contract WorkerReply Talk where
  may l
    | .own (.send reply) => reply.Plain ∧ l.line ≠ .stuck
    | _ => True
  gives l
    | .own (.send reply), ok, l' => l.Sends reply ok l'
    | .own .self, worker, l' => worker.serverChallenge = serverChallenge ∧ l' = l
    | .own .getNtdKey, ntdKey, l' => (∀ key, ntdKey = some key → key.length = 4) ∧ l' = l
    | .own (.fromDir ..), manifest, l' =>
      (∀ m, manifest = some m → ∀ f ∈ m.files, NulFree f.path) ∧ l' = l
    | .own .drop, _, l' => l' = { l with left := true }
    | _, _, l' => l' = l

/-- How the handling of an event ends: everything has been said, or the client cannot be reached any
more, or it is refused, or the task has crashed before anything was said. -/
inductive Says (A : List AuthToCli → Prop) (refuses crashes : Prop) (l : Talk) :
    Talk → Result Empty Bool → Prop
  | all {replies : List AuthToCli} (h : A replies) (hup : replies ≠ [] → l.line = .up) :
    Says A refuses crashes l (l.say replies) (.ok true)
  | part {replies more : List AuthToCli} {l' : Talk} (h : A (replies ++ more)) (hmore : more ≠ [])
      (hup : replies ≠ [] → l.line = .up) (hsent : l'.sent = l.sent ++ replies)
      (hleft : l'.left = l.left) : Says A refuses crashes l l' (.ok false)
  | refused (h : refuses) : Says A refuses crashes l l (.ok false)
  | crash (h : crashes) : Says A refuses crashes l l .crash

section Keeps

variable {config : ServerConfig} {serverChallenge : UInt32} {A : List AuthToCli → Prop}
  {refuses crashes : Prop} {l : Talk}

lemma says_last {before : List AuthToCli} {reply : AuthToCli} (hl : l.line ≠ .stuck)
    (hplain : reply.Plain) (h : A (before ++ [reply])) (hup : before ≠ [] → l.line = .up) :
    (sendMessage reply).Keeps (talkContract serverChallenge) (Says A refuses crashes l)
      (l.say before) := by
  refine ⟨⟨hplain, hl⟩, fun ok l' hl' => ?_⟩
  rcases hl' with ⟨rfl, hline, rfl⟩ | ⟨rfl, hsent, hleft, -⟩
  · rw [Talk.say_say]
    exact .all h fun _ => hline
  · exact .part h (by simp) hup hsent hleft

lemma says_reply {reply : AuthToCli} (hl : l.line ≠ .stuck) (hplain : reply.Plain)
    (h : A [reply]) : (sendMessage reply).Keeps (talkContract serverChallenge)
      (Says A refuses crashes l) l := by
  have hlast : (sendMessage reply).Keeps (talkContract serverChallenge) (Says A refuses crashes l)
      (l.say []) := says_last hl hplain h (absurd rfl)
  rwa [Talk.say_nil] at hlast

lemma says_nothing (h : A []) : (pure true : WorkerProg Bool).Keeps (talkContract serverChallenge)
    (Says A refuses crashes l) l := by
  have hall : Says A refuses crashes l (l.say []) (.ok true) := .all h (absurd rfl)
  rwa [Talk.say_nil] at hall

/-- The program says to the client what may be said to the message. -/
def Handles (config : ServerConfig) (serverChallenge : UInt32) (message : CliToAuth) (l : Talk)
    (p : WorkerProg Bool) : Prop :=
  p.Keeps (talkContract serverChallenge) (Says (Answers config serverChallenge message)
    (Refuses config message) (MayCrash message) l) l

variable {β : Type} {Q : Talk → Result Empty β → Prop}

lemma says_vault {m : VaultMessage} {f : VaultReply m → WorkerProg β}
    (hf : ∀ r, (f r).Keeps (talkContract serverChallenge) Q l) :
    (vault m >>= f).Keeps (talkContract serverChallenge) Q l := by
  refine ⟨trivial, fun r l' hl' => ?_⟩
  obtain rfl : l' = l := hl'
  exact hf r

/-- Whatever a program asks of the vault, nothing is said meanwhile. -/
lemma says_onVault {α : Type} {p : VaultProg α} {f : NetResult α → WorkerProg β}
    (hcrash : Q l .crash) (hf : ∀ r, (f r).Keeps (talkContract serverChallenge) Q l) :
    (onVault p >>= f).Keeps (talkContract serverChallenge) Q l := by
  induction p with
  | done r =>
    cases r with
    | ok a => exact hf (.ok a)
    | error err => exact hf (.error err)
    | crash => exact hcrash
  | ask m k ih =>
    refine ⟨trivial, fun r l' hl' => ?_⟩
    obtain rfl : l' = l := hl'
    exact ih r

lemma says_self {f : AuthServerWorker → WorkerProg β}
    (hf : ∀ worker, worker.serverChallenge = serverChallenge →
      (f worker).Keeps (talkContract serverChallenge) Q l) :
    (own .self >>= f).Keeps (talkContract serverChallenge) Q l := by
  refine ⟨trivial, fun worker l' hl' => ?_⟩
  obtain ⟨hchallenge, rfl⟩ := hl'
  exact hf worker hchallenge

/-! ### Logins -/

lemma says_sendPlayers (transId : UInt32) (players : List PlayerInfo) (before : List AuthToCli)
    (hl : l.line ≠ .stuck) (hup : before ≠ [] → l.line = .up) :
    (sendPlayers transId players).Keeps (talkContract serverChallenge) (fun l' r =>
      r = .ok (some .netSuccess) ∧ l' = l.say (before ++ players.map (playerReply transId)) ∧
        (before ++ players.map (playerReply transId) ≠ [] → l.line = .up) ∨
      r = .ok none ∧ ∃ shown more, shown ++ more = before ++ players.map (playerReply transId) ∧
        (shown ≠ [] → l.line = .up) ∧ l'.sent = l.sent ++ shown ∧ l'.left = l.left)
      (l.say before) := by
  induction players generalizing before with
  | nil =>
    refine .inl ⟨rfl, ?_, ?_⟩
    · rw [List.map_nil, List.append_nil]
    · rwa [List.map_nil, List.append_nil]
  | cons player players ih =>
    refine ⟨⟨trivial, hl⟩, fun ok l' hl' => ?_⟩
    rcases hl' with ⟨rfl, hline, rfl⟩ | ⟨rfl, hsent, hleft, -⟩
    · rw [Talk.say_say]
      have hrest := ih (before ++ [playerReply transId player]) fun _ => hline
      rwa [List.append_assoc, List.singleton_append] at hrest
    · exact .inr ⟨rfl, before, _, rfl, hup, hsent, hleft⟩

variable {transId clientChallenge : UInt32} {accountName authToken : String}
  {passHash : Hashes.ShaDigest} {X : Hashes.Crates} {playerId : UInt32}

lemma says_loginError {os : String} (result : NetResultCode) (hl : l.line ≠ .stuck) :
    Handles config serverChallenge (.acctLoginRequest transId clientChallenge accountName passHash
      authToken os) l (sendMessage (.loginError transId result)) :=
  says_reply hl rfl (.inl ⟨result, rfl⟩)

lemma says_finishLogin {os : String} (account : AccountInfo) (hl : l.line ≠ .stuck) :
    Handles config serverChallenge (.acctLoginRequest transId clientChallenge accountName passHash
      authToken os) l (finishLogin transId account) := by
  refine ⟨trivial, fun ntdKey l' hl' => ?_⟩
  obtain ⟨hkey, rfl⟩ := hl'
  cases ntdKey with
  | none => exact says_loginError _ hl
  | some ntdKey =>
    have hplain : (AuthToCli.acctLoginReply transId NetResultCode.netSuccess.code account.accountId
        account.accountFlags account.billingType ntdKey).Plain := hkey ntdKey rfl
    refine ⟨trivial, fun _ l₁ hl₁ => ?_⟩
    obtain rfl : l₁ = l' := hl₁
    refine Prog.Keeps.bind (p := fetchAccountPlayers transId account.accountId)
      (says_vault fun r => ?_)
    cases r with
    | error err =>
      cases err
      case netSuccess => exact says_reply hl hplain (.inr ⟨[], account, ntdKey, rfl⟩)
      all_goals exact says_loginError _ hl
    | ok players =>
      have hplayers : (sendPlayers transId players).Keeps (talkContract serverChallenge) _
          (l₁.say []) := says_sendPlayers transId players [] hl (absurd rfl)
      rw [Talk.say_nil] at hplayers
      refine hplayers.imp fun l₂ r h => ?_
      rcases h with ⟨rfl, rfl, hup⟩ | ⟨rfl, shown, more, hshown, hup, hsent, hleft⟩
      · exact says_last hl hplain (.inr ⟨players, account, ntdKey, rfl⟩) hup
      · have hrest : Answers config serverChallenge (.acctLoginRequest transId clientChallenge
            accountName passHash authToken os) (shown ++ (more ++ [.acctLoginReply transId
              NetResultCode.netSuccess.code account.accountId account.accountFlags
              account.billingType ntdKey])) :=
          .inr ⟨players, account, ntdKey, by rw [← List.append_assoc, hshown, List.nil_append]⟩
        exact .part hrest (by simp) hup hsent hleft

lemma says_doLoginRequest {os : String} (hl : l.line ≠ .stuck) :
    Handles config serverChallenge (.acctLoginRequest transId clientChallenge accountName passHash
      authToken os) l (doLoginRequest config X transId clientChallenge accountName passHash) := by
  refine says_vault fun r => ?_
  match r with
  | .error err => exact says_loginError err hl
  | .ok none => exact says_loginError _ hl
  | .ok (some account) =>
    refine says_self fun worker _ => ?_
    split
    · exact says_loginError _ hl
    · split
      · exact says_loginError _ hl
      · split
        · exact says_loginError _ hl
        · exact says_finishLogin account hl

/-! ### Files -/

lemma says_doManifest (transId : UInt32) (directory ext : String) (hl : l.line ≠ .stuck) :
    Handles config serverChallenge (.fileListRequest transId directory ext) l
      (doManifest transId directory ext) := by
  have hnone : Handles config serverChallenge (.fileListRequest transId directory ext) l
      (sendMessage (.fileListReply transId NetResultCode.netFileNotFound.code ⟨[]⟩)) :=
    says_reply hl nofun (.inl rfl)
  unfold doManifest fetchList
  split
  · exact hnone
  · rename_i hcheck
    refine ⟨trivial, fun manifest l' hl' => ?_⟩
    obtain ⟨hplain, rfl⟩ := hl'
    cases manifest with
    | none => exact hnone
    | some manifest =>
      exact says_reply hl (hplain manifest rfl) (.inr ⟨by simpa using hcheck, manifest, rfl⟩)

lemma says_sendChunks (transId totalSize offset : UInt32) (reads : List (Option Bytes))
    (before : List AuthToCli) (hl : l.line ≠ .stuck) (hup : before ≠ [] → l.line = .up)
    (h : ∀ chunks failed, (∀ chunk ∈ chunks, chunk ≠ []) →
      A (before ++ chunkReplies transId totalSize offset chunks failed)) :
    (sendChunks transId totalSize offset reads).Keeps (talkContract serverChallenge)
      (Says A refuses crashes l) (l.say before) := by
  have hend {offset : UInt32} {before : List AuthToCli} (hup : before ≠ [] → l.line = .up)
      (h : ∀ chunks failed, (∀ chunk ∈ chunks, chunk ≠ []) →
        A (before ++ chunkReplies transId totalSize offset chunks failed)) :
      Says A refuses crashes l (l.say before) (.ok true) := by
    have hA := h [] false nofun
    rw [chunkReplies, if_neg (by decide), List.append_nil] at hA
    exact .all hA hup
  induction reads generalizing offset before with
  | nil => exact hend hup h
  | cons read reads ih =>
    match read with
    | none => exact says_last hl trivial (h [] true nofun) hup
    | some [] => exact hend hup h
    | some (b :: bs) =>
      refine ⟨⟨trivial, hl⟩, fun ok l' hl' => ?_⟩
      rcases hl' with ⟨rfl, hline, rfl⟩ | ⟨rfl, hsent, hleft, -⟩
      · -- one part has been sent, and the rest is sent like a file of its own
        rw [Talk.say_say]
        refine ih _ _ (fun _ => hline) fun chunks failed hne => ?_
        rw [List.append_assoc]
        exact h ((b :: bs) :: chunks) failed (List.forall_mem_cons.2 ⟨List.cons_ne_nil _ _, hne⟩)
      · exact .part (h [b :: bs] false (by simp)) (List.cons_ne_nil _ _) hup hsent hleft

lemma says_doDownload (transId : UInt32) (filename : String) (hl : l.line ≠ .stuck) :
    Handles config serverChallenge (.fileDownloadRequest transId filename) l
      (doDownload config.dataRoot transId filename) := by
  have herror (result : NetResultCode) : Handles config serverChallenge
      (.fileDownloadRequest transId filename) l (sendMessage (.downloadError transId result)) :=
    says_reply hl trivial (.inl ⟨result, rfl⟩)
  unfold doDownload openServerFile
  cases hpath : downloadPath filename.toList config.dataRoot with
  | none => exact herror _
  | some path =>
    refine ⟨trivial, fun opened l' hl' => ?_⟩
    obtain rfl : l' = l := hl'
    match opened with
    | none => exact herror _
    | some (size, reads) =>
      show Prog.Keeps _ _ (if size.toNat < 2 ^ 32 then _ else _) _
      split
      · have hchunks : (sendChunks transId (UInt32.ofNat size.toNat) 0 reads).Keeps
            (talkContract serverChallenge) (Says (Answers config serverChallenge
              (.fileDownloadRequest transId filename)) False False l') (l'.say []) :=
          says_sendChunks transId _ 0 reads [] hl (absurd rfl) fun chunks failed hne =>
            .inr ⟨by rw [hpath]; rfl, _, chunks, failed, hne, rfl⟩
        rwa [Talk.say_nil] at hchunks
      · exact herror _

/-! ### Players -/

lemma says_setPlayerReply (hplayer : playerId ≠ 0) (hl : l.line ≠ .stuck) (result : NetResultCode) :
    Handles config serverChallenge (.acctSetPlayerRequest transId playerId) l
      (sendMessage (setPlayerReply transId result)) :=
  says_reply hl trivial ⟨result, rfl, fun h => absurd h hplayer⟩

lemma says_checkOnline (hplayer : playerId ≠ 0) (hl : l.line ≠ .stuck) :
    Handles config serverChallenge (.acctSetPlayerRequest transId playerId)
      l (checkOnline transId playerId) := by
  refine says_vault fun r => ?_
  match r with
  | .error err => exact says_setPlayerReply hplayer hl err
  | .ok node =>
    dsimp only
    split
    · exact .crash hplayer
    · split
      · exact says_setPlayerReply hplayer hl _
      · refine says_vault fun r => ?_
        cases r with
        | error err => exact says_setPlayerReply hplayer hl err
        | ok u =>
          refine ⟨trivial, fun _ l' hl' => ?_⟩
          obtain rfl : l' = l := hl'
          exact says_setPlayerReply hplayer hl _

lemma says_doSetPlayer (hplayer : playerId ≠ 0) (hl : l.line ≠ .stuck) :
    Handles config serverChallenge (.acctSetPlayerRequest transId playerId)
      l (doSetPlayer transId playerId) := by
  refine says_self fun worker _ => ?_
  split
  · exact says_setPlayerReply hplayer hl _
  · refine says_vault fun r => ?_
    cases r with
    | error err => exact says_setPlayerReply hplayer hl err
    | ok node =>
      dsimp only
      split
      · exact says_setPlayerReply hplayer hl _
      · split
        · exact says_setPlayerReply hplayer hl _
        · exact says_checkOnline hplayer hl

lemma says_playerCreate (sdl : SdlHost X) (transId : UInt32)
    (playerName avatarShape friendInvite : String) (hl : l.line ≠ .stuck) :
    Handles config serverChallenge
      (.playerCreateRequest transId playerName avatarShape friendInvite) l
      (playerCreate sdl transId playerName avatarShape) := by
  have herror (result : NetResultCode) : Handles config serverChallenge
      (.playerCreateRequest transId playerName avatarShape friendInvite) l
      (sendMessage (.playerCreateError transId result)) :=
    says_reply hl trivial (.inl ⟨result, rfl⟩)
  refine says_self fun worker _ => ?_
  split
  · exact herror _
  · split
    · exact herror _
    · rename_i hshape
      rw [not_and_or, not_not, not_not] at hshape
      refine says_vault fun r => ?_
      cases r with
      | error err => exact herror err
      | ok player =>
        refine ⟨trivial, fun reltoUuid l' hl' => ?_⟩
        obtain rfl : l' = l := hl'
        refine says_onVault (.crash trivial) fun r => ?_
        cases r with
        | error err => exact herror err
        | ok u => exact says_reply hl trivial (.inr ⟨hshape, player, rfl⟩)

/-! ### One event -/

lemma says_handleMessage (sdl : SdlHost X) (message : CliToAuth) (hl : l.line ≠ .stuck) :
    Handles config serverChallenge message l (handleMessage sdl config message) := by
  cases message with
  | pingRequest pingTime transId payload => exact says_reply hl trivial rfl
  | clientRegisterRequest buildId =>
    rw [handleMessage]
    split
    · rename_i hbuild
      exact .refused hbuild
    · rename_i hbuild
      rw [not_and_or, not_not, not_not] at hbuild
      refine says_self fun worker hchallenge => ?_
      rw [hchallenge]
      exact says_reply hl trivial ⟨hbuild, rfl⟩
  | acctLoginRequest transId clientChallenge accountName passHash authToken os =>
    exact says_doLoginRequest hl
  | acctSetPlayerRequest transId playerId =>
    rw [handleMessage]
    split
    · exact says_reply hl trivial ⟨_, rfl, fun _ => rfl⟩
    · rename_i hplayer
      exact says_doSetPlayer hplayer hl
  | playerCreateRequest transId playerName avatarShape friendInvite =>
    exact says_playerCreate sdl transId playerName avatarShape friendInvite hl
  | vaultNodeCreate transId nodeBuffer =>
    rw [handleMessage, vaultNodeCreate]
    split
    · exact says_reply hl trivial ⟨_, _, rfl⟩
    · exact says_vault fun r => says_reply hl trivial ⟨_, _, rfl⟩
  | vaultNodeFetch transId nodeId =>
    refine says_vault fun r => ?_
    cases r with
    | error err => exact says_reply hl trivial ⟨_, _, rfl⟩
    | ok node =>
      dsimp only
      split
      · exact says_reply hl trivial ⟨_, _, rfl⟩
      · exact says_reply hl trivial ⟨_, _, rfl⟩
  | vaultNodeAdd transId parentId childId ownerId =>
    exact says_vault fun r => says_reply hl trivial ⟨_, rfl⟩
  | vaultFetchNodeRefs transId nodeId =>
    exact says_vault fun r => says_reply hl trivial ⟨_, _, rfl⟩
  | vaultInitAgeRequest transId =>
    exact says_onVault (.crash trivial) fun r => says_reply hl trivial ⟨_, _, _, rfl⟩
  | vaultNodeFind transId nodeBuffer =>
    rw [handleMessage, vaultNodeFind]
    split
    · exact says_reply hl trivial ⟨_, _, rfl⟩
    · exact says_vault fun r => says_reply hl trivial ⟨_, _, rfl⟩
  | fileListRequest transId directory ext => exact says_doManifest transId directory ext hl
  | fileDownloadRequest transId filename => exact says_doDownload transId filename hl
  | acctCreateRequest | acctChangePasswordRequest | acctSetRolesRequest | acctSetBillingTypeRequest
  | acctActivateRequest | acctCreateFromKeyRequest | upgradeVisitorRequest
  | setPlayerBanStatusRequest => exact says_reply hl trivial rfl
  | clientSetCCRLevel | kickPlayer | propagateBuffer | logPythonTraceback | logStackDump
  | fileDownloadChunkAck | logClientDebuggerConnect => exact says_nothing rfl
  | playerDeleteRequest | changePlayerNameRequest | sendFriendInviteRequest | vaultNodeSave
  | vaultNodeDelete | vaultNodeRemove | vaultSetSeen | vaultSendNode | ageRequest
  | getPublicAgeList | setAgePublic | scoreCreate | scoreDelete | scoreGetScores | scoreAddPoints
  | scoreTransferPoints | scoreSetPoints | scoreGetRanks | accountExistsRequest
  | scoreGetHighScores => exact .crash trivial

lemma says_handleBcastMsg (msg : VaultBroadcast) (hl : l.line ≠ .stuck) :
    (handleBcastMsg msg).Keeps (talkContract serverChallenge)
      (Says (Answered config serverChallenge (.broadcast (some msg))) False False l) l := by
  cases msg with
  | nodeChanged nodeId revisionId => exact says_reply hl trivial rfl
  | nodeAdded parentId childId ownerId => exact says_reply hl trivial rfl

end Keeps

/-! ### All events -/

/-- Why a worker leaves, when `part` is what has been said to the first event of the rest. -/
inductive Leaves (config : ServerConfig) (serverChallenge : UInt32) :
    List Event → List AuthToCli → Prop
  | readError (later : List Event) : Leaves config serverChallenge (.readError :: later) []
  | refused {message : CliToAuth} (later : List Event) (h : Refuses config message) :
    Leaves config serverChallenge (.message message :: later) []
  | unreachable {event : Event} (later : List Event) {part more : List AuthToCli}
      (h : Answered config serverChallenge event (part ++ more)) (hmore : more ≠ []) :
    Leaves config serverChallenge (event :: later) part

/-- The first event of the rest has ended the task. -/
def Crashed (rest : List Event) (part : List AuthToCli) : Prop :=
  part = [] ∧ ∃ message later, rest = .message message :: later ∧ MayCrash message

/-- At most a part of what may be said to the first event of the rest has been said. -/
def Begun (config : ServerConfig) (serverChallenge : UInt32) (rest : List Event)
    (part : List AuthToCli) : Prop :=
  part = [] ∨ ∃ event later more, rest = event :: later ∧
    Answered config serverChallenge event (part ++ more)

lemma Leaves.begun {config : ServerConfig} {serverChallenge : UInt32} {rest : List Event}
    {part : List AuthToCli} (h : Leaves config serverChallenge rest part) :
    Begun config serverChallenge rest part := by
  cases h with
  | readError | refused => exact .inl rfl
  | unreachable later h => exact .inr ⟨_, later, _, rfl, h⟩

def Ends (config : ServerConfig) (serverChallenge : UInt32) (rest : List Event)
    (part : List AuthToCli) : Result Empty Bool → Prop
  | .ok true => Leaves config serverChallenge rest part
  | .ok false => rest = [] ∧ part = []
  | .error _ => False
  | .crash => Crashed rest part

def Talked (config : ServerConfig) (serverChallenge : UInt32) (events : List Event) (l l' : Talk)
    (r : Result Empty Bool) : Prop :=
  ∃ done rest groups part, events = done ++ rest ∧
    List.Forall₂ (Answered config serverChallenge) done groups ∧
    Ends config serverChallenge rest part r ∧ l'.sent = l.sent ++ (groups.flatten ++ part) ∧
    l'.left = l.left ∧ (groups.flatten ++ part ≠ [] → l.line = .up)

section Loop

variable {X : Hashes.Crates} (sdl : SdlHost X) {config : ServerConfig} {serverChallenge : UInt32}
  {l : Talk}

lemma Talked.cons {event : Event} {events : List Event} {replies : List AuthToCli} {l' : Talk}
    {r : Result Empty Bool} (h : Answered config serverChallenge event replies)
    (hup : replies ≠ [] → l.line = .up)
    (htalked : Talked config serverChallenge events (l.say replies) l' r) :
    Talked config serverChallenge (event :: events) l l' r := by
  obtain ⟨done, rest, groups, part, rfl, hdone, hends, hsent, hleft, hline⟩ := htalked
  refine ⟨event :: done, rest, replies :: groups, part, rfl, .cons h hdone, hends, ?_, hleft, ?_⟩
  · rw [hsent, List.flatten_cons, Talk.say]
    simp only [List.append_assoc]
  · intro hne
    by_cases hreplies : replies = []
    · subst hreplies
      exact hline hne
    · exact hup hreplies

lemma Talked.stop {event : Event} {events : List Event} {part : List AuthToCli} {l' : Talk}
    {r : Result Empty Bool} (hends : Ends config serverChallenge (event :: events) part r)
    (hup : part ≠ [] → l.line = .up) (hsent : l'.sent = l.sent ++ part)
    (hleft : l'.left = l.left) : Talked config serverChallenge (event :: events) l l' r :=
  ⟨[], event :: events, [], part, rfl, .nil, hends, hsent, hleft, hup⟩

lemma says_event {event : Event} {events : List Event} {prog rest : WorkerProg Bool}
    {refuses crashes : Prop} (hl : l.line ≠ .stuck)
    (hprog : prog.Keeps (talkContract serverChallenge)
      (Says (Answered config serverChallenge event) refuses crashes l) l)
    (hrefuses : refuses → Leaves config serverChallenge (event :: events) [])
    (hcrashes : crashes → Crashed (event :: events) [])
    (hrest : ∀ l : Talk, l.line ≠ .stuck → rest.Keeps (talkContract serverChallenge)
      (Talked config serverChallenge events l) l) :
    (prog >>= fun goOn => if goOn then rest else pure true).Keeps (talkContract serverChallenge)
      (Talked config serverChallenge (event :: events) l) l := by
  refine Prog.Keeps.bind (hprog.imp fun l' r h => ?_)
  cases h with
  | @all replies h hup => exact (hrest (l.say replies) hl).imp fun l' r => .cons h hup
  | part h hmore hup hsent hleft => exact .stop (.unreachable events h hmore) hup hsent hleft
  | refused h => exact .stop (hrefuses h) (absurd rfl) (List.append_nil _).symm rfl
  | crash h => exact .stop (hcrashes h) (absurd rfl) (List.append_nil _).symm rfl

lemma says_wait {β : Type} {p : WorkerProg β} {Q : Talk → Result Empty β → Prop}
    (h : p.Keeps (talkContract serverChallenge) Q l) :
    (do own .wait; p).Keeps (talkContract serverChallenge) Q l := by
  refine ⟨trivial, fun _ l' hl' => ?_⟩
  obtain rfl : l' = l := hl'
  exact h

/-- **The loop** answers one event after another. -/
lemma says_runLoop (events : List Event) (hl : l.line ≠ .stuck) :
    (runLoop sdl config events).Keeps (talkContract serverChallenge)
      (Talked config serverChallenge events l) l := by
  induction events generalizing l with
  | nil => exact says_wait ⟨[], [], [], [], rfl, .nil, ⟨rfl, rfl⟩, (List.append_nil _).symm, rfl,
      absurd rfl⟩
  | cons event events ih =>
    match event with
    | .message message =>
      refine says_wait ⟨trivial, fun _ l' hl' => ?_⟩
      obtain rfl : l' = l := hl'
      exact says_event hl (says_handleMessage sdl message hl) (.refused events)
        (fun h => ⟨rfl, message, events, rfl, h⟩) fun l => ih
    | .broadcast (some msg) =>
      exact says_wait (says_event hl (says_handleBcastMsg msg hl) False.elim False.elim
        fun l => ih)
    | .broadcast none =>
      refine says_wait ((ih hl).imp fun l' r h => .cons rfl (absurd rfl) ?_)
      rwa [Talk.say_nil]
    | .readError =>
      exact says_wait (.stop (.readError events) (absurd rfl) (List.append_nil _).symm rfl)

lemma says_handleDisconnect :
    handleDisconnect.Keeps (talkContract serverChallenge) (fun l' _ => l' = l) l := by
  refine says_self fun worker _ => ?_
  split
  · refine says_vault fun r => ?_
    cases r with
    | error err => exact rfl
    | ok node =>
      dsimp only
      split
      · exact rfl
      · exact says_vault fun r => rfl
  · exact rfl

/-- What `send_caps` sends: a bit vector of one word, with bit 0 set. -/
def capsReply : AuthToCli := .serverCaps [1, 0, 0, 0, 1, 0, 0, 0]

/-- What a worker has said when its task ends, or when it waits. -/
def SessionTalk (config : ServerConfig) (serverChallenge : UInt32) (events : List Event)
    (sent : List AuthToCli) (left : Bool) (r : Result Empty Unit) : Prop :=
  ∃ hello done rest groups part, events = done ++ rest ∧
    List.Forall₂ (Answered config serverChallenge) done groups ∧
    sent = hello ++ (groups.flatten ++ part) ∧
    (hello = [capsReply] ∨ hello = [] ∧ groups.flatten ++ part = []) ∧
    (left = true → Leaves config serverChallenge rest part) ∧
    (left = false → r = .ok () ∧ rest = [] ∧ part = [] ∨ r = .crash ∧ Crashed rest part)

lemma says_afterCaps (events : List Event) {hello : List AuthToCli} {line : Line}
    (hline : hello = [capsReply] ∨ hello = [] ∧ line = .cut) (hstuck : line ≠ .stuck) :
    (do
      if ← runLoop sdl config events then do
        own .drop
        handleDisconnect
        own .exit
      else pure ()).Keeps (talkContract serverChallenge)
        (fun l r => SessionTalk config serverChallenge events l.sent l.left r)
        ⟨hello, line, false⟩ := by
  refine Prog.Keeps.bind ((says_runLoop sdl events (l := ⟨hello, line, false⟩) hstuck).imp
    fun l r h => ?_)
  obtain ⟨done, rest, groups, part, rfl, hdone, hends, hsent, hleft, hup⟩ := h
  have hhello : hello = [capsReply] ∨ hello = [] ∧ groups.flatten ++ part = [] := by
    refine hline.imp_right fun ⟨hnil, hcut⟩ => ⟨hnil, ?_⟩
    by_contra hne
    have hcut' : line = .up := hup hne
    rw [hcut] at hcut'
    cases hcut'
  have htalk (left : Bool) (r : Result Empty Unit)
      (hleaves : left = true → Leaves config serverChallenge rest part)
      (hstays : left = false →
        r = .ok () ∧ rest = [] ∧ part = [] ∨ r = .crash ∧ Crashed rest part) :
      SessionTalk config serverChallenge (done ++ rest) l.sent left r :=
    ⟨hello, done, rest, groups, part, rfl, hdone, hsent, hhello, hleaves, hstays⟩
  have hfalse : l.left = false := hleft
  match r with
  | .ok true =>
    refine ⟨trivial, fun _ l' hl' => ?_⟩
    obtain rfl : l' = { l with left := true } := hl'
    refine Prog.Keeps.bind (p := handleDisconnect) (says_handleDisconnect.imp fun l' r hl' => ?_)
    subst hl'
    cases r with
    | ok u =>
      refine ⟨trivial, fun _ l' hl' => ?_⟩
      obtain rfl : l' = { l with left := true } := hl'
      exact htalk true _ (fun _ => hends) nofun
    | error e => cases e
    | crash => exact htalk true _ (fun _ => hends) nofun
  | .ok false =>
    refine htalk l.left _ (fun h => ?_) fun _ => .inl ⟨rfl, hends.1, hends.2⟩
    rw [hfalse] at h
    cases h
  | .error e => cases e
  | .crash =>
    refine htalk l.left _ (fun h => ?_) fun _ => .inr ⟨rfl, hends⟩
    rw [hfalse] at h
    cases h

lemma says_startWorker (events : List Event) :
    (startWorker sdl config events).Keeps (talkContract serverChallenge)
      (fun l r => SessionTalk config serverChallenge events l.sent l.left r) ⟨[], .up, false⟩ := by
  refine ⟨⟨trivial, by simp⟩, fun ok l hl => ?_⟩
  rcases hl with ⟨rfl, -, rfl⟩ | ⟨rfl, hsent, hleft, hcut⟩
  · exact says_afterCaps sdl events (.inl rfl) (by simp)
  · obtain ⟨sent, line, left⟩ := l
    obtain rfl : sent = [] := hsent
    obtain rfl : left = false := hleft
    obtain rfl : line = .cut := hcut ⟨_, rfl⟩
    exact says_afterCaps sdl events (.inr ⟨rfl, rfl⟩) (by simp)

end Loop

end Moulars.Auth
