import Moulars.Auth.Sessions

/-!
The copies of vault nodes that clients keep.

The vault task announces every change of a node to all workers, and a worker passes announcements on
before it takes the next message from its client. In between a reply with an old node may still be
on its way, and an announcement may be lost when a worker falls behind.
-/

namespace Moulars.Auth

open Lib.Wire Lib.Clients Hashes Vault

/-! ### Announcements -/

def changedNode : VaultBroadcast → Option UInt32
  | .nodeChanged nodeId _ => some nodeId
  | .nodeAdded .. => none

def changedNodes (bcasts : List VaultBroadcast) : List UInt32 := bcasts.filterMap changedNode

lemma changedNodes_append (bcasts bcasts' : List VaultBroadcast) :
    changedNodes (bcasts ++ bcasts') = changedNodes bcasts ++ changedNodes bcasts' :=
  List.filterMap_append

/-- **A request leaves a node as it is or announces the change**, as long as no id is given out a
second time. -/
lemma same_or_announced {X : Crates} {env : Env} {m : VaultMessage} {db : Backend}
    {o : Outcome m.Reply} (hfree : db.vault.lookup db.nodeIndex = none)
    (h : processVaultMessage X env m db = some o) {k : UInt32} {n : VaultNode}
    (hk : db.vault.lookup k = some n) :
    o.db.vault.lookup k = some n ∨ k ∈ changedNodes o.bcasts := by
  have hgraph := (processVaultMessage_graph X env h).1
  have hnodes : o.db.vault = (db.graph.apply (m.action X db)).nodes := congrArg Graph.nodes hgraph
  cases ha : m.action X db with
  | keep =>
    rw [hnodes, ha]
    exact .inl hk
  | ref r =>
    rw [hnodes, ha]
    exact .inl hk
  | create node =>
    have hne : k ≠ db.nodeIndex := by
      rintro rfl
      rw [hfree] at hk
      cases hk
    rw [hnodes, ha]
    exact .inl ((AList.lookup_insert_ne hne).trans hk)
  | update node =>
    -- only an update request updates a node
    cases m with
    | updateNode node' =>
      cases ha
      obtain rfl := Option.some.inj h
      cases hold : db.vault.lookup node.nodeId with
      | none =>
        simp only [updateNode, DbMemory.updateNode, hold]
        exact .inl hk
      | some old =>
        simp only [updateNode, DbMemory.updateNode, hold]
        by_cases hkn : k = node.nodeId
        · exact .inr (List.mem_singleton.2 hkn)
        · exact .inl ((AList.lookup_insert_ne hkn).trans hk)
    | createPlayer =>
      simp only [VaultMessage.action] at ha
      split at ha <;> cases ha
    | _ => cases ha

/-! ### Workers with their clients -/

inductive Job
  | broadcast (msg : VaultBroadcast)
  | message (message : CliToAuth)

/-- What a client does with a reply: it keeps the node it has asked for, and drops a node that has
changed. -/
def Job.receive (copies : UInt32 → Option Bytes) : Job → AuthToCli → UInt32 → Option Bytes
  | _, .vaultNodeChanged nodeId _ => Function.update copies nodeId none
  | .message (.vaultNodeFetch _ nodeId), .vaultNodeFetched _ result nodeBuffer =>
    if result = NetResultCode.netSuccess.code then Function.update copies nodeId (some nodeBuffer)
    else copies
  | _, _ => copies

/-- A worker, the broadcasts it has not taken yet and those it has missed, what is left of the
handler that it is in, and the copies that its client has. -/
structure Holder where
  connected : Bool
  worker : AuthServerWorker
  queue : List VaultBroadcast
  lost : List VaultBroadcast
  task : Option (Job × WorkerProg Bool)
  copies : UInt32 → Option Bytes

namespace Holder

def off : Holder := ⟨false, ⟨0, none, none⟩, [], [], none, fun _ => none⟩

def start (serverChallenge : UInt32) : Holder :=
  ⟨true, ⟨serverChallenge, none, none⟩, [], [], none, fun _ => none⟩

/-- Broadcasts are sent to all who have subscribed. -/
def hear (h : Holder) (bcasts : List VaultBroadcast) : Holder :=
  if h.connected then { h with queue := h.queue ++ bcasts } else h

/-- A worker that falls behind misses the oldest `n` broadcasts. -/
def lag (h : Holder) (n : ℕ) : Holder :=
  { h with queue := h.queue.drop n, lost := h.lost ++ h.queue.take n }

/-- One turn of the loop of `run`: a broadcast first, and the client's message otherwise. -/
def turn {X : Crates} (sdl : SdlHost X) (config : ServerConfig) (h : Holder)
    (message : CliToAuth) : Holder :=
  match h.connected, h.task, h.queue with
  | true, none, msg :: queue => { h with queue, task := some (.broadcast msg, handleBcastMsg msg) }
  | true, none, [] => { h with task := some (.message message, handleMessage sdl config message) }
  | _, _, _ => h

/-- After a call of the worker's own. A client whose connection has failed gets nothing more. -/
def own (h : Holder) (v : World) (job : Job) : (c : OwnCall) → (c.Reply → WorkerProg Bool) → Holder
  | .send reply, k => { h with
      task := some (job, k v.sent)
      connected := h.connected && v.sent
      copies := if v.sent then job.receive h.copies reply else h.copies }
  | c, k => { h with
      task := some (job, k (v.answer ⟨h.worker, .idle⟩ c))
      worker := h.worker.after (.own c) }

end Holder

/-- The vault and all workers; `down` once the vault task has ended. -/
structure Realm (ι : Type) where
  db : Backend
  down : Bool
  holders : ι → Holder

inductive Move (ι : Type)
  /-- a client connects -/
  | connect (i : ι) (serverChallenge : UInt32)
  /-- one turn of a worker's loop, with the message that it finds -/
  | turn (i : ι) (message : CliToAuth)
  /-- the next call of a handler, or its end -/
  | call (i : ι) (v : World)
  /-- a worker misses broadcasts -/
  | lag (i : ι) (n : ℕ)
  /-- a request of someone else -/
  | other (m : VaultMessage) (env : Env)

namespace Realm

variable {ι : Type} {X : Crates}

def start : Realm ι := ⟨initial, false, fun _ => .off⟩

/-- A request to the vault; its broadcasts are sent before the reply. -/
def request (X : Crates) (s : Realm ι) (env : Env) (m : VaultMessage) :
    Option (VaultReply m) × Realm ι :=
  if s.down then (none, s)
  else match processVaultMessage X env m s.db with
    | some o => (some o.reply, ⟨o.db, false, fun j => (s.holders j).hear o.bcasts⟩)
    | none => (none, { s with down := true })

variable [DecidableEq ι]

def set (s : Realm ι) (i : ι) (h : Holder) : Realm ι :=
  { s with holders := Function.update s.holders i h }

def call (X : Crates) (s : Realm ι) (i : ι) (v : World) : Realm ι :=
  match (s.holders i).task with
  | none => s
  | some (_, .done (.ok true)) => s.set i { s.holders i with task := none }
  -- the worker leaves, or has crashed
  | some (_, .done _) => s.set i { s.holders i with task := none, connected := false }
  | some (job, .ask (.own c) k) => s.set i ((s.holders i).own v job c k)
  | some (job, .ask (.vault m) k) => match s.request X v.env m with
    | (some r, s') => s'.set i { s'.holders i with task := some (job, k r) }
    | (none, s') => s'

def step (sdl : SdlHost X) (config : ServerConfig) (s : Realm ι) : Move ι → Realm ι
  | .connect i serverChallenge =>
    if (s.holders i).connected then s else s.set i (.start serverChallenge)
  | .turn i message => s.set i ((s.holders i).turn sdl config message)
  | .call i v => s.call X i v
  | .lag i n => s.set i ((s.holders i).lag n)
  | .other m env => (s.request X env m).2

def run (sdl : SdlHost X) (config : ServerConfig) (moves : List (Move ι)) : Realm ι :=
  moves.foldl (step sdl config) start

end Realm

/-! ### What can be told of a copy -/

/-- The copy is what a client would fetch now. -/
def Current (db : Backend) (k : UInt32) (buffer : Bytes) : Prop :=
  ∃ n, db.vault.lookup k = some n ∧ n.toBlob = .ok buffer

/-- The client is being told that the node has changed. -/
def telling : Option (Job × WorkerProg Bool) → Option UInt32
  | some (.broadcast msg, .ask ..) => changedNode msg
  | _ => none

lemma telling_handleBcastMsg (msg : VaultBroadcast) :
    telling (some (.broadcast msg, handleBcastMsg msg)) = changedNode msg := by
  cases msg <;> rfl

/-- The client will be told that the node has changed, or should have been. -/
def Holder.Due (h : Holder) (k : UInt32) : Prop :=
  k ∈ changedNodes h.queue ∨ telling h.task = some k ∨ k ∈ changedNodes h.lost

/-- How far a handler is: a node that is on its way to the client is current, or the client will be
told. -/
def TaskOk (db : Backend) (h : Holder) : Option (Job × WorkerProg Bool) → Prop
  | some (.broadcast msg, prog) => prog = handleBcastMsg msg ∨ ∃ r, prog = .done r
  | some (.message (.vaultNodeFetch transId nodeId), prog) =>
    prog = vaultNodeFetch transId nodeId ∨ (∃ r, prog = .done r) ∨
      ∃ result nodeBuffer, prog = sendMessage (.vaultNodeFetched transId result nodeBuffer) ∧
        (result = NetResultCode.netSuccess.code → Current db nodeId nodeBuffer ∨ h.Due nodeId)
  | _ => True

structure Coherent (db : Backend) (h : Holder) : Prop where
  copies : ∀ k buffer, h.copies k = some buffer → Current db k buffer ∨ h.Due k
  task : TaskOk db h h.task

section Coherent

variable {db db' : Backend} {h h' : Holder}

/-- What was current or due is still so. -/
def Carries (db : Backend) (h : Holder) (db' : Backend) (h' : Holder) : Prop :=
  ∀ k buffer, Current db k buffer ∨ h.Due k → Current db' k buffer ∨ h'.Due k

lemma TaskOk.carry {task : Option (Job × WorkerProg Bool)} (hok : TaskOk db h task)
    (hcarry : Carries db h db' h') : TaskOk db' h' task := by
  unfold TaskOk at hok ⊢
  split at hok
  · exact hok
  · rcases hok with hstart | hdone | ⟨result, nodeBuffer, hprog, hnode⟩
    · exact .inl hstart
    · exact .inr (.inl hdone)
    · exact .inr (.inr ⟨result, nodeBuffer, hprog, fun hr => hcarry _ _ (hnode hr)⟩)
  · trivial

lemma Coherent.carry (hc : Coherent db h) (hcopies : h'.copies = h.copies)
    (htask : h'.task = h.task) (hcarry : Carries db h db' h') : Coherent db' h' := by
  refine ⟨fun k buffer hk => hcarry k buffer (hc.copies k buffer ?_), ?_⟩
  · rwa [hcopies] at hk
  · rw [htask]
    exact hc.task.carry hcarry

lemma Due.of_telling {k : UInt32} (hdue : h.Due k) (hqueue : h'.queue = h.queue)
    (hlost : h'.lost = h.lost) (htelling : telling h.task = some k → h'.Due k) : h'.Due k := by
  rcases hdue with hk | hk | hk
  · exact .inl (hqueue ▸ hk)
  · exact htelling hk
  · exact .inr (.inr (hlost ▸ hk))

lemma Coherent.hear {X : Crates} {env : Env} {m : VaultMessage} {o : Outcome m.Reply}
    (hc : Coherent db h) (hfree : db.vault.lookup db.nodeIndex = none)
    (ho : processVaultMessage X env m db = some o) (hon : h.connected = true) :
    Coherent o.db (h.hear o.bcasts) := by
  unfold Holder.hear
  rw [if_pos hon]
  refine hc.carry rfl rfl fun k buffer hk => ?_
  have hdue (hmem : k ∈ changedNodes h.queue ∨ k ∈ changedNodes o.bcasts) :
      k ∈ changedNodes (h.queue ++ o.bcasts) := by
    rw [changedNodes_append]
    exact List.mem_append.2 hmem
  rcases hk with ⟨n, hlookup, hblob⟩ | hk | hk | hk
  · rcases same_or_announced hfree ho hlookup with hsame | hannounced
    · exact .inl ⟨n, hsame, hblob⟩
    · exact .inr (.inl (hdue (.inr hannounced)))
  · exact .inr (.inl (hdue (.inl hk)))
  · exact .inr (.inr (.inl hk))
  · exact .inr (.inr (.inr hk))

lemma Coherent.lag (hc : Coherent db h) (n : ℕ) : Coherent db (h.lag n) := by
  refine hc.carry rfl rfl fun k buffer hk => ?_
  rcases hk with hk | hk | hk | hk
  · exact .inl hk
  · -- in the part that is dropped, or in the rest
    rw [← List.take_append_drop n h.queue, changedNodes_append] at hk
    rcases List.mem_append.1 hk with hk | hk
    · refine .inr (.inr (.inr ?_))
      show k ∈ changedNodes (h.lost ++ h.queue.take n)
      rw [changedNodes_append]
      exact List.mem_append.2 (.inr hk)
    · exact .inr (.inl hk)
  · exact .inr (.inr (.inl hk))
  · refine .inr (.inr (.inr ?_))
    show k ∈ changedNodes (h.lost ++ h.queue.take n)
    rw [changedNodes_append]
    exact List.mem_append.2 (.inl hk)

lemma Coherent.turn {X : Crates} (hc : Coherent db h) (sdl : SdlHost X) (config : ServerConfig)
    (message : CliToAuth) : Coherent db (h.turn sdl config message) := by
  unfold Holder.turn
  split
  · rename_i msg queue hon htask hqueue
    refine ⟨fun k buffer hk => (hc.copies k buffer hk).imp_right fun hdue => ?_, .inl rfl⟩
    rcases hdue with hk | hk | hk
    · -- the node that the worker is about to tell of, or one of the others
      rw [hqueue, changedNodes, List.filterMap_cons] at hk
      cases hmsg : changedNode msg with
      | none =>
        rw [hmsg] at hk
        exact .inl hk
      | some j =>
        rw [hmsg] at hk
        rcases List.mem_cons.1 hk with rfl | hk
        · exact .inr (.inl ((telling_handleBcastMsg msg).trans hmsg))
        · exact .inl hk
    · rw [htask] at hk
      cases hk
    · exact .inr (.inr hk)
  · rename_i hon htask hqueue
    refine ⟨fun k buffer hk => ?_, ?_⟩
    · rcases hc.copies k buffer hk with hcurrent | hdue
      · exact .inl hcurrent
      · refine .inr (Due.of_telling hdue rfl rfl fun htelling => ?_)
        rw [htask] at htelling
        cases htelling
    · cases message with
      | vaultNodeFetch transId nodeId => exact .inl rfl
      | _ => trivial
  · exact hc

lemma Coherent.goOn (hc : Coherent db h) (hcopies : ∀ k buffer, h'.copies k = some buffer →
    h.copies k = some buffer ∨ Current db k buffer ∨ h.Due k) (hqueue : h'.queue = h.queue)
    (hlost : h'.lost = h.lost)
    (htelling : ∀ k, telling h.task = some k → h'.copies k = none ∨ telling h'.task = some k)
    (htask : TaskOk db h' h'.task) : Coherent db h' := by
  refine ⟨fun k buffer hk => ?_, htask⟩
  have hold : Current db k buffer ∨ h.Due k := (hcopies k buffer hk).elim (hc.copies k buffer) id
  refine hold.imp_right fun hdue => Due.of_telling hdue hqueue hlost fun ht => ?_
  rcases htelling k ht with hnone | hstill
  · rw [hk] at hnone
    cases hnone
  · exact .inr (.inl hstill)

variable {job : Job} {reply : AuthToCli}

lemma receive_eq_some {copies : UInt32 → Option Bytes} {k : UInt32} {buffer : Bytes}
    (hk : job.receive copies reply k = some buffer) :
    copies k = some buffer ∨ ∃ transId transId', job = .message (.vaultNodeFetch transId k) ∧
      reply = .vaultNodeFetched transId' NetResultCode.netSuccess.code buffer := by
  unfold Job.receive at hk
  split at hk
  · rename_i nodeId revisionId
    by_cases hkn : k = nodeId
    · rw [hkn, Function.update_self] at hk
      cases hk
    · rw [Function.update_of_ne hkn] at hk
      exact .inl hk
  · rename_i transId nodeId transId' result nodeBuffer
    split at hk
    · rename_i hresult
      by_cases hkn : k = nodeId
      · rw [hkn, Function.update_self] at hk
        cases hk
        exact .inr ⟨transId, transId', by rw [hkn], by rw [hresult]⟩
      · rw [Function.update_of_ne hkn] at hk
        exact .inl hk
    · exact .inl hk
  · exact .inl hk

/-- The handlers of broadcasts and of `VaultNodeFetch` end after they have sent something. -/
lemma TaskOk.send {k : Bool → WorkerProg Bool}
    (hok : TaskOk db h (some (job, .ask (.own (.send reply)) k))) (ok : Bool) :
    TaskOk db h' (some (job, k ok)) := by
  cases job with
  | broadcast msg =>
    rcases hok with hprog | ⟨r, hprog⟩
    · cases msg with
      | nodeChanged nodeId revisionId =>
        cases hprog
        exact .inr ⟨_, rfl⟩
      | nodeAdded parentId childId ownerId =>
        cases hprog
        exact .inr ⟨_, rfl⟩
    · cases hprog
  | message message =>
    cases message with
    | vaultNodeFetch transId nodeId =>
      rcases hok with hprog | ⟨r, hprog⟩ | ⟨result, nodeBuffer, hprog, -⟩
      · cases hprog
      · cases hprog
      · cases hprog
        exact .inr (.inl ⟨_, rfl⟩)
    | _ => trivial

lemma Coherent.send {v : World} {k : Bool → WorkerProg Bool} (hc : Coherent db h)
    (htask : h.task = some (job, .ask (.own (.send reply)) k)) (hsent : v.sent = true) :
    Coherent db (h.own v job (.send reply) k) := by
  have hok := hc.task
  rw [htask] at hok
  have hcopies : (h.own v job (.send reply) k).copies = job.receive h.copies reply := by
    rw [Holder.own, if_pos hsent]
  refine hc.goOn (fun k' buffer hk' => ?_) rfl rfl (fun k' htelling => .inl ?_) (hok.send v.sent)
  · rw [hcopies] at hk'
    refine (receive_eq_some hk').imp_right ?_
    rintro ⟨transId, transId', rfl, rfl⟩
    rcases hok with hprog | ⟨r, hprog⟩ | ⟨result, nodeBuffer, hprog, hnode⟩
    · cases hprog
    · cases hprog
    · cases hprog
      exact hnode rfl
  · -- what the worker was about to tell is told
    rw [htask] at htelling
    rw [hcopies]
    cases job with
    | message message => cases htelling
    | broadcast msg =>
      rcases hok with hprog | ⟨r, hprog⟩
      · cases msg with
        | nodeChanged nodeId revisionId =>
          cases hprog
          cases htelling
          exact Function.update_self ..
        | nodeAdded parentId childId ownerId => cases htelling
      · cases hprog

lemma Coherent.own {v : World} {c : OwnCall} {k : c.Reply → WorkerProg Bool} (hc : Coherent db h)
    (htask : h.task = some (job, .ask (.own c) k)) (hon : (h.own v job c k).connected = true) :
    Coherent db (h.own v job c k) := by
  have hok := hc.task
  rw [htask] at hok
  have hother (h' : Holder) (prog : WorkerProg Bool) (hcopies : h'.copies = h.copies)
      (hqueue : h'.queue = h.queue) (hlost : h'.lost = h.lost)
      (htask' : h'.task = some (job, prog)) (hc' : ∀ reply, c ≠ .send reply) : Coherent db h' := by
    -- only handlers that are not followed make such calls
    have hjob : ∃ message, job = .message message ∧ ∀ t n, message ≠ .vaultNodeFetch t n := by
      cases job with
      | broadcast msg =>
        rcases hok with hprog | ⟨r, hprog⟩
        · cases msg with
          | nodeChanged nodeId revisionId =>
            cases hprog
            exact absurd rfl (hc' _)
          | nodeAdded parentId childId ownerId =>
            cases hprog
            exact absurd rfl (hc' _)
        · cases hprog
      | message message =>
        refine ⟨message, rfl, ?_⟩
        rintro t n rfl
        rcases hok with hprog | ⟨r, hprog⟩ | ⟨result, nodeBuffer, hprog, -⟩
        · cases hprog
        · cases hprog
        · cases hprog
          exact absurd rfl (hc' _)
    obtain ⟨message, rfl, hmessage⟩ := hjob
    refine hc.goOn (fun k' buffer hk' => .inl (hcopies ▸ hk')) hqueue hlost (fun k' ht => ?_) ?_
    · rw [htask] at ht
      cases ht
    · rw [htask']
      unfold TaskOk
      split
      · rename_i heq
        cases heq
      · rename_i heq
        cases heq
        exact absurd rfl (hmessage _ _)
      · trivial
  cases c with
  | send reply =>
    have hsent : v.sent = true := (Bool.and_eq_true_iff.1 hon).2
    exact hc.send htask hsent
  | _ => exact hother _ _ rfl rfl rfl rfl nofun

/-- The vault's answer to a `VaultNodeFetch`: the node on its way to the client is current. -/
lemma TaskOk.fetched {X : Crates} {env : Env} {transId nodeId : UInt32}
    {o : Outcome (VaultMessage.fetchNode nodeId).Reply}
    (ho : processVaultMessage X env (.fetchNode nodeId) db = some o)
    {k : VaultReply (.fetchNode nodeId) → WorkerProg Bool}
    (hprog : .ask (.vault (.fetchNode nodeId)) k = vaultNodeFetch transId nodeId) :
    TaskOk o.db h (some (.message (.vaultNodeFetch transId nodeId), k o.reply)) := by
  obtain rfl := Option.some.inj ho
  cases hprog
  cases hlookup : db.vault.lookup nodeId with
  | none =>
    have hreply : DbMemory.fetchNode nodeId db = .error .netVaultNodeNotFound := by
      rw [DbMemory.fetchNode, hlookup]
    refine .inr (.inr ⟨NetResultCode.netVaultNodeNotFound.code, [], ?_, fun h => ?_⟩)
    · rw [hreply]
      rfl
    · exact absurd h (by decide)
  | some n =>
    have hreply : DbMemory.fetchNode nodeId db = .ok n := by rw [DbMemory.fetchNode, hlookup]
    cases hblob : n.toBlob with
    | ok nodeBuffer =>
      refine .inr (.inr ⟨NetResultCode.netSuccess.code, nodeBuffer, ?_,
        fun _ => .inl ⟨n, hlookup, hblob⟩⟩)
      rw [hreply]
      simp only [Prog.andThen, hblob]
    | error e =>
      refine .inr (.inr ⟨NetResultCode.netInternalError.code, [], ?_, fun h => ?_⟩)
      · rw [hreply]
        simp only [Prog.andThen, hblob]
      · exact absurd h (by decide)

lemma Coherent.answered {X : Crates} {env : Env} {m : VaultMessage} {o : Outcome m.Reply}
    {k : VaultReply m → WorkerProg Bool} (ho : processVaultMessage X env m db = some o)
    (hc : Coherent o.db h) (htask : h.task = some (job, .ask (.vault m) k)) :
    Coherent o.db { h with task := some (job, k o.reply) } := by
  have hok := hc.task
  rw [htask] at hok
  have htelling (k' : UInt32) : telling h.task ≠ some k' := by
    rw [htask]
    cases job with
    | message message => nofun
    | broadcast msg =>
      rcases hok with hprog | ⟨r, hprog⟩
      · cases msg <;> cases hprog
      · cases hprog
  refine hc.goOn (fun k' buffer hk' => .inl hk') rfl rfl (fun k' ht => absurd ht (htelling k')) ?_
  cases job with
  | broadcast msg =>
    rcases hok with hprog | ⟨r, hprog⟩
    · cases msg <;> cases hprog
    · cases hprog
  | message message =>
    cases message with
    | vaultNodeFetch transId nodeId =>
      rcases hok with hprog | ⟨r, hprog⟩ | ⟨result, nodeBuffer, hprog, -⟩
      · obtain rfl : m = .fetchNode nodeId := by
          cases hprog
          rfl
        exact TaskOk.fetched ho hprog
      · cases hprog
      · cases hprog
    | _ => trivial

lemma Coherent.done {r : Result Empty Bool} (hc : Coherent db h)
    (htask : h.task = some (job, .done r)) : Coherent db { h with task := none } := by
  refine hc.goOn (fun k' buffer hk' => .inl hk') rfl rfl (fun k' ht => ?_) trivial
  rw [htask] at ht
  cases job <;> cases ht

lemma Coherent.start (serverChallenge : UInt32) : Coherent db (.start serverChallenge) :=
  ⟨nofun, trivial⟩

end Coherent

/-! ### All runs -/

namespace Realm

variable {ι : Type} {X : Crates}

/-- The nodes are stored under ids that are given out once, and all clients that are connected have
coherent copies. -/
structure Inv (s : Realm ι) (calls : ℕ) : Prop where
  sound : ∃ ids made, made ≤ calls ∧ Sound s.db.graph ids made
  coherent : ∀ i, (s.holders i).connected = true → Coherent s.db (s.holders i)

variable {s : Realm ι} {calls : ℕ}

lemma Inv.mono {calls' : ℕ} (h : s.Inv calls) (hle : calls ≤ calls') :
    s.Inv calls' := by
  obtain ⟨ids, made, hmade, hsound⟩ := h.sound
  exact ⟨⟨ids, made, hmade.trans hle, hsound⟩, h.coherent⟩

lemma connected_hear (h : Holder) (bcasts : List VaultBroadcast) :
    (h.hear bcasts).connected = h.connected := by
  unfold Holder.hear
  split <;> rfl

lemma task_hear (h : Holder) (bcasts : List VaultBroadcast) : (h.hear bcasts).task = h.task := by
  unfold Holder.hear
  split <;> rfl

/-- **Every request keeps the invariant.** -/
lemma Inv.answer (h : s.Inv calls) (hcalls : calls + 1 < 2 ^ 32 - 1003) {env : Env}
    {m : VaultMessage} {o : Outcome m.Reply} (ho : processVaultMessage X env m s.db = some o) :
    Inv ⟨o.db, false, fun j => (s.holders j).hear o.bcasts⟩ (calls + 1) := by
  obtain ⟨ids, made, hmade, hsound⟩ := h.sound
  have hgraph := (processVaultMessage_graph X env ho).1
  have hone : (m.action X s.db).creations ≤ 1 := by
    cases m.action X s.db <;> simp [Action.creations]
  refine ⟨⟨_, _, ?_, hgraph ▸ hsound.apply (m.action X s.db) (by omega)⟩, fun j hon => ?_⟩
  · omega
  · have hj : (s.holders j).connected = true := (connected_hear _ _).symm.trans hon
    exact (h.coherent j hj).hear hsound.lookup_next ho hj

lemma Inv.request (h : s.Inv calls) (hcalls : calls + 1 < 2 ^ 32 - 1003) (env : Env)
    (m : VaultMessage) :
    (s.request X env m).2.Inv (calls + 1) := by
  unfold Realm.request
  split
  · exact h.mono (Nat.le_succ _)
  · split
    · rename_i o ho
      exact h.answer hcalls ho
    · exact ⟨(h.mono (Nat.le_succ _)).sound, h.coherent⟩

variable [DecidableEq ι]

lemma Inv.set (h : s.Inv calls) {i : ι} {holder : Holder}
    (hholder : holder.connected = true → Coherent s.db holder) : (s.set i holder).Inv calls := by
  refine ⟨h.sound, ?_⟩
  exact (Function.forall_update_iff s.holders fun _ holder =>
    holder.connected = true → Coherent s.db holder).2 ⟨hholder, fun j _ => h.coherent j⟩

lemma Inv.call (h : s.Inv calls) (hcalls : calls + 1 < 2 ^ 32 - 1003) (i : ι) (v : World) :
    (s.call X i v).Inv (calls + 1) := by
  have hsame := h.mono (Nat.le_succ calls)
  unfold Realm.call
  split
  · exact hsame
  · rename_i job htask
    exact hsame.set fun hon => (h.coherent i hon).done htask
  · exact hsame.set nofun
  · rename_i job c k htask
    refine hsame.set fun hon => ?_
    have hi : (s.holders i).connected = true := by
      cases c with
      | send reply => exact (Bool.and_eq_true_iff.1 hon).1
      | _ => exact hon
    exact (h.coherent i hi).own htask hon
  · rename_i job m k htask
    unfold Realm.request
    split
    · rename_i r s' hs'
      split at hs'
      · cases hs'
      · split at hs'
        · rename_i o ho
          cases hs'
          have hnext := h.answer hcalls ho
          refine hnext.set fun hon => (hnext.coherent i hon).answered ho ?_
          exact (task_hear _ _).trans htask
        · cases hs'
    · rename_i s' hs'
      split at hs'
      · cases hs'
        exact hsame
      · split at hs'
        · cases hs'
        · cases hs'
          exact ⟨hsame.sound, h.coherent⟩

lemma Inv.step {s : Realm ι} {calls : ℕ} (h : s.Inv calls) (hcalls : calls + 1 < 2 ^ 32 - 1003)
    (sdl : SdlHost X) (config : ServerConfig) (move : Move ι) :
    (s.step sdl config move).Inv (calls + 1) := by
  have hsame := h.mono (Nat.le_succ calls)
  cases move with
  | connect i serverChallenge =>
    rw [Realm.step]
    split
    · exact hsame
    · exact hsame.set fun _ => .start serverChallenge
  | turn i message =>
    refine hsame.set fun hon => ?_
    have hi : (s.holders i).connected = true := by
      unfold Holder.turn at hon
      split at hon
      · exact hon
      · exact hon
      · exact hon
    exact (h.coherent i hi).turn sdl config message
  | call i v => exact h.call hcalls i v
  | lag i n => exact hsame.set fun hon => (h.coherent i hon).lag n
  | other m env => exact h.request hcalls env m

lemma Inv.run (sdl : SdlHost X) (config : ServerConfig) (moves : List (Move ι))
    (hmoves : moves.length < 2 ^ 32 - 1003) : (run sdl config moves).Inv moves.length := by
  have hfold (moves : List (Move ι)) (s : Realm ι) (calls : ℕ) (h : s.Inv calls)
      (hcalls : calls + moves.length < 2 ^ 32 - 1003) :
      (moves.foldl (Realm.step sdl config) s).Inv (calls + moves.length) := by
    induction moves generalizing s calls with
    | nil => exact h
    | cons move moves ih =>
      rw [List.length_cons] at hcalls ⊢
      have hnext := ih _ (calls + 1) (h.step (by omega) sdl config move) (by omega)
      rwa [show calls + (moves.length + 1) = calls + 1 + moves.length by omega]
  have hstart : (start : Realm ι).Inv 0 :=
    ⟨⟨_, 0, Nat.le_refl _, sound_initial⟩, fun i hon => nomatch hon⟩
  have hrun := hfold moves start 0 hstart (by omega)
  rwa [Nat.zero_add] at hrun

end Realm

/-- **Copies are coherent**: whatever any number of clients, and others, ask of the vault, and in
whatever order the requests, the replies and the broadcasts are handled, a copy that a connected
client has is the node that the vault has now; or else the worker still has to tell the client that
the node has changed, or has missed the broadcast that says so. -/
theorem copies_coherent {ι : Type} [DecidableEq ι] {X : Crates} (sdl : SdlHost X)
    (config : ServerConfig) (moves : List (Move ι)) (hmoves : moves.length < 2 ^ 32 - 1003) (i : ι)
    (hon : ((Realm.run sdl config moves).holders i).connected = true) (k : UInt32) (buffer : Bytes)
    (hcopy : ((Realm.run sdl config moves).holders i).copies k = some buffer) :
    Current (Realm.run sdl config moves).db k buffer ∨
      ((Realm.run sdl config moves).holders i).Due k :=
  ((Realm.Inv.run sdl config moves hmoves).coherent i hon).copies k buffer hcopy

/-- A client fetches a node that someone else then updates. -/
def overtaken : List (Move Unit) :=
  [.connect () 0, .turn () (.vaultNodeFetch 1 1001), .call () .small, .call () .small,
    .call () .small, .other (.updateNode (VaultPlayerInfoNode.newUpdate 1001 1 "" .nil))
      (Env.plain 0)]

/-- Its copy is an old one, and the worker has yet to say so. -/
theorem overtaken_coherent :
    ∃ buffer, (((Realm.run smallSdl ⟨0, [], false⟩ overtaken).holders ()).copies 1001 =
      some buffer ∧ changedNodes ((Realm.run smallSdl ⟨0, [], false⟩ overtaken).holders ()).queue =
        [1001]) ∧ (Current (Realm.run smallSdl ⟨0, [], false⟩ overtaken).db 1001 buffer ∨
          ((Realm.run smallSdl ⟨0, [], false⟩ overtaken).holders ()).Due 1001) := by
  have hrun : ((Realm.run smallSdl ⟨0, [], false⟩ overtaken).holders ()).connected = true ∧
      (((Realm.run smallSdl ⟨0, [], false⟩ overtaken).holders ()).copies 1001).isSome = true ∧
      changedNodes ((Realm.run smallSdl ⟨0, [], false⟩ overtaken).holders ()).queue = [1001] := by
    decide +kernel
  obtain ⟨hon, hsome, hqueue⟩ := hrun
  obtain ⟨buffer, hcopy⟩ := Option.isSome_iff_exists.1 hsome
  exact ⟨buffer, ⟨hcopy, hqueue⟩,
    copies_coherent smallSdl _ overtaken (by decide) () hon 1001 buffer hcopy⟩

end Moulars.Auth
