import Moulars.Auth.Answers
import Moulars.Net.Sending

/-!
Whole sessions of the auth server on a socket: what a client decrypts and reads, against what has
come up on its connection.

The vault may answer every request as it likes, since other workers and other servers use it too;
the files may change at any time, and the socket may fail at any byte. The task may also be cut off
before any of its calls, where the argument of a log message panics because the client is gone.
-/

namespace Moulars.Auth

open Lib.Wire Lib.Text Lib.Clients Lib.AsyncRead
open Lib.MessageLoop Lib.Paths Net Net.Crypt Vault

/-! ### The socket -/

/-- The manifests that `Manifest::from_dir` can return: a file name has no NUL. -/
@[reducible] def DirManifest : Type := {m : Manifest // ∀ f ∈ m.files, NulFree f.path}

/-- What the calls of a worker meet, by the number of calls before them. -/
structure AuthEnv where
  vault : ℕ → (m : VaultMessage) → VaultReply m
  newV4 : ℕ → Uuid
  ntdKey : ℕ → Option (Vector UInt32 4)
  fromDir : ℕ → String → String → Option DirManifest
  openFile : ℕ → Path → Option (UInt64 × List (Option Bytes))
  /-- the number of bytes that the socket takes before it fails -/
  capacity : ℕ
  /-- the number of calls before the argument of a log message panics, if one does -/
  panics : Option ℕ

structure AuthSocket where
  worker : AuthServerWorker
  calls : ℕ
  /-- the loop has ended -/
  left : Bool
  stream : CryptWriter

def AuthSocket.start (key : ℕ → UInt8) (serverChallenge : UInt32) : AuthSocket :=
  ⟨⟨serverChallenge, none, none⟩, 0, false, ⟨⟨key, 0⟩, []⟩⟩

def AuthSocket.count (s : AuthSocket) : AuthSocket := { s with calls := s.calls + 1 }

namespace AuthEnv

variable (env : AuthEnv)

def send (reply : AuthToCli) (s : AuthSocket) : Bool × AuthSocket :=
  match reply.streamWrite with
  | .ok replyBuf =>
    let out := s.stream.writeAll (env.capacity - s.stream.outgoing.length) replyBuf
    (out.1, { s with stream := out.2 })
  | .error _ => (false, s)

def handle : (c : WorkerCall) → AuthSocket → WorkerReply c × AuthSocket
  | .vault m, s => (env.vault s.calls m, s.count)
  | .own (.send reply), s => env.send reply s
  | .own .self, s => (s.worker, s)
  | .own .newV4, s => (env.newV4 s.calls, s.count)
  | .own .getNtdKey, s => ((env.ntdKey s.calls).map Vector.toList, s.count)
  | .own (.fromDir dirName ext), s => ((env.fromDir s.calls dirName ext).map (·.val), s.count)
  | .own (.openFile path), s => (env.openFile s.calls path, s.count)
  | .own (.setAccountId accountId), s =>
    ((), { s with worker := { s.worker with accountId := some accountId } })
  | .own (.setPlayerId playerId), s =>
    ((), { s with worker := { s.worker with playerId := some playerId } })
  | .own .drop, s => ((), { s with left := true })
  | .own .wait, s => ((), s)
  | .own (.receive _), s => ((), s)
  | .own .exit, s => ((), s)

end AuthEnv

def runSocket {X : Hashes.Crates} (sdl : SdlHost X) (config : ServerConfig) (env : AuthEnv)
    (key : ℕ → UInt8) (serverChallenge : UInt32) (events : List Event) :
    Result Empty Unit × AuthSocket :=
  match env.panics with
  | none => (startWorker sdl config events).exec env.handle (.start key serverChallenge)
  | some n => (startWorker sdl config events).execFor env.handle n (.start key serverChallenge)

/-! ### What the client sees -/

/-- What the client reads of the bytes sent. -/
def AuthSocket.seen (key : ℕ → UInt8) (s : AuthSocket) : List AuthToCli :=
  decode AuthToCli.read (s.stream.seen key)

/-- The socket, and what has been said on it. -/
structure Stands (key : ℕ → UInt8) (capacity : ℕ) (serverChallenge : UInt32) (s : AuthSocket)
    (l : Talk) : Prop where
  challenge : s.worker.serverChallenge = serverChallenge
  left : s.left = l.left
  up : l.line = .up → ∃ plain, Sent AuthToCli.streamWrite AuthToCli.Plain l.sent plain ∧
    InStep key s.stream plain
  down : l.line ≠ .up → s.seen key = l.sent
  cut : l.line = .cut → capacity ≤ s.stream.outgoing.length

section Stands

variable {env : AuthEnv} {key : ℕ → UInt8} {capacity : ℕ} {serverChallenge : UInt32}
  {s : AuthSocket} {l : Talk}

lemma readsBack_plain (reply : AuthToCli) (h : reply.Plain) :
    ReadsBack AuthToCli.read reply.streamWrite reply := AuthToCli.readsBack h

lemma Stands.seen (h : Stands key capacity serverChallenge s l) : s.seen key = l.sent := by
  cases hline : l.line with
  | up =>
    obtain ⟨plain, hsent, hstep⟩ := h.up hline
    rw [AuthSocket.seen, hstep.seen]
    exact hsent.decode AuthToCli.consumes_read readsBack_plain
  | cut => exact h.down (by simp [hline])
  | stuck => exact h.down (by simp [hline])

variable {reply : AuthToCli}

lemma ne_nil_of_streamWrite {b : Bytes} (hplain : reply.Plain) (hb : reply.streamWrite = .ok b) :
    b ≠ [] := by
  rintro rfl
  have hread := AuthToCli.readsBack hplain [] hb []
  cases hread

lemma Stands.send_up (h : Stands key env.capacity serverChallenge s l) (hline : l.line = .up)
    (hplain : reply.Plain) {b : Bytes} (hb : reply.streamWrite = .ok b) :
    ∃ l', l.Sends reply (env.send reply s).1 l' ∧
      Stands key env.capacity serverChallenge (env.send reply s).2 l' := by
  obtain ⟨plain, hsent, hstep⟩ := h.up hline
  unfold AuthEnv.send
  rw [hb]
  dsimp only
  cases hok : (s.stream.writeAll (env.capacity - s.stream.outgoing.length) b).1 with
  | true =>
    refine ⟨l.say [reply], .inl ⟨rfl, hline, rfl⟩, h.challenge, h.left, fun _ => ?_, ?_, ?_⟩
    · exact ⟨plain ++ b, hsent.snoc hplain hb, hstep.writeAll hok⟩
    · exact fun hdown => absurd hline hdown
    · intro hcut
      rw [show l.line = .cut from hcut] at hline
      cases hline
  | false =>
    have hroom : env.capacity - s.stream.outgoing.length < b.length :=
      not_le.1 (of_decide_eq_false hok)
    refine ⟨{ l with line := .cut }, .inr ⟨rfl, rfl, rfl, fun _ => rfl⟩, h.challenge, h.left, nofun,
      fun _ => ?_, fun _ => ?_⟩
    · show decode AuthToCli.read (CryptWriter.seen key _) = l.sent
      rw [hstep.seen_writeAll]
      exact hsent.decode_take AuthToCli.consumes_read readsBack_plain hplain hb hroom
    · show env.capacity ≤ (s.stream.outgoing ++ List.take _ (xorFrom _ _ b)).length
      rw [List.length_append, List.length_take, length_xorFrom]
      omega

lemma Stands.send_cut (h : Stands key env.capacity serverChallenge s l) (hline : l.line = .cut)
    (hplain : reply.Plain) {b : Bytes} (hb : reply.streamWrite = .ok b) :
    ∃ l', l.Sends reply (env.send reply s).1 l' ∧
      Stands key env.capacity serverChallenge (env.send reply s).2 l' := by
  have hroom : env.capacity - s.stream.outgoing.length = 0 := Nat.sub_eq_zero_of_le (h.cut hline)
  have hlen : 0 < b.length := List.length_pos_of_ne_nil (ne_nil_of_streamWrite hplain hb)
  have hdown : s.seen key = l.sent := h.down (by simp [hline])
  have hout : (s.stream.writeAll 0 b).2.outgoing = s.stream.outgoing := by
    simp [CryptWriter.writeAll]
  unfold AuthEnv.send
  rw [hb, hroom]
  refine ⟨{ l with line := .cut }, .inr ⟨?_, rfl, rfl, fun _ => rfl⟩, h.challenge, h.left,
    fun hup => Line.noConfusion hup, fun _ => ?_, fun _ => ?_⟩
  · exact decide_eq_false (by omega)
  · show decode AuthToCli.read (xorFrom key 0 (s.stream.writeAll 0 b).2.outgoing) = l.sent
    rw [hout]
    exact hdown
  · show env.capacity ≤ (s.stream.writeAll 0 b).2.outgoing.length
    rw [hout]
    exact h.cut hline

lemma Stands.send (h : Stands key env.capacity serverChallenge s l) (hline : l.line ≠ .stuck)
    (hplain : reply.Plain) :
    ∃ l', l.Sends reply (env.send reply s).1 l' ∧
      Stands key env.capacity serverChallenge (env.send reply s).2 l' := by
  cases hb : reply.streamWrite with
  | error e =>
    have hsend : env.send reply s = (false, s) := by rw [AuthEnv.send, hb]
    have hunwritable : ¬ ∃ b, reply.streamWrite = .ok b := by
      rintro ⟨b, hok⟩
      rw [hb] at hok
      cases hok
    rw [hsend]
    exact ⟨{ l with line := .stuck }, .inr ⟨rfl, rfl, rfl, fun hok => absurd hok hunwritable⟩,
      h.challenge, h.left, nofun, fun _ => h.seen, nofun⟩
  | ok b =>
    cases hl : l.line with
    | up => exact h.send_up hl hplain hb
    | cut => exact h.send_cut hl hplain hb
    | stuck => exact absurd hl hline

lemma Stands.keep {worker : AuthServerWorker} {calls : ℕ}
    (h : Stands key capacity serverChallenge s l)
    (hworker : worker.serverChallenge = s.worker.serverChallenge) :
    Stands key capacity serverChallenge { s with worker, calls } l :=
  ⟨hworker.trans h.challenge, h.left, h.up, h.down, h.cut⟩

lemma Stands.serve (c : WorkerCall) (s : AuthSocket) (l : Talk)
    (h : Stands key env.capacity serverChallenge s l)
    (hmay : (talkContract serverChallenge).may l c) :
    ∃ l', (talkContract serverChallenge).gives l c (env.handle c s).1 l' ∧
      Stands key env.capacity serverChallenge (env.handle c s).2 l' := by
  cases c with
  | vault m => exact ⟨l, rfl, h.keep rfl⟩
  | own c =>
    cases c with
    | send reply => exact h.send hmay.2 hmay.1
    | self => exact ⟨l, ⟨h.challenge, rfl⟩, h⟩
    | newV4 => exact ⟨l, rfl, h.keep rfl⟩
    | getNtdKey =>
      refine ⟨l, ⟨fun k hk => ?_, rfl⟩, h.keep rfl⟩
      obtain ⟨v, -, rfl⟩ := Option.map_eq_some_iff.1 hk
      exact v.length_toList
    | fromDir dirName ext =>
      refine ⟨l, ⟨fun m hm => ?_, rfl⟩, h.keep rfl⟩
      obtain ⟨m', -, rfl⟩ := Option.map_eq_some_iff.1 hm
      exact m'.property
    | openFile path => exact ⟨l, rfl, h.keep rfl⟩
    | setAccountId accountId => exact ⟨l, rfl, h.keep rfl⟩
    | setPlayerId playerId => exact ⟨l, rfl, h.keep rfl⟩
    | drop => exact ⟨_, rfl, h.challenge, rfl, h.up, h.down, h.cut⟩
    | wait => exact ⟨l, rfl, h⟩
    | receive message => exact ⟨l, rfl, h⟩
    | exit => exact ⟨l, rfl, h⟩

end Stands

/-! ### Tasks that are cut off -/

section Cut

variable {E α : Type} (env : AuthEnv)

/-- The same surroundings with a socket that takes fewer bytes. -/
def AuthEnv.withCapacity (c : ℕ) : AuthEnv := { env with capacity := c }

variable {s : AuthSocket}

lemma length_outgoing_handle (c : WorkerCall) (hroom : s.stream.outgoing.length ≤ env.capacity) :
    s.stream.outgoing.length ≤ (env.handle c s).2.stream.outgoing.length ∧
      (env.handle c s).2.stream.outgoing.length ≤ env.capacity := by
  cases c with
  | vault m => exact ⟨le_rfl, hroom⟩
  | own c =>
    cases c with
    | send reply =>
      show _ ≤ (env.send reply s).2.stream.outgoing.length ∧
        (env.send reply s).2.stream.outgoing.length ≤ _
      unfold AuthEnv.send
      split
      · simp only [CryptWriter.writeAll, List.length_append, List.length_take]
        omega
      · exact ⟨le_rfl, hroom⟩
    | _ => exact ⟨le_rfl, hroom⟩

lemma length_outgoing_execFor (p : Prog WorkerReply E α) (n : ℕ)
    (hroom : s.stream.outgoing.length ≤ env.capacity) :
    s.stream.outgoing.length ≤ (p.execFor env.handle n s).2.stream.outgoing.length ∧
      (p.execFor env.handle n s).2.stream.outgoing.length ≤ env.capacity := by
  induction p generalizing n s with
  | done r => exact ⟨le_rfl, hroom⟩
  | ask c k ih =>
    cases n with
    | zero => exact ⟨le_rfl, hroom⟩
    | succ n =>
      obtain ⟨hmore, hroom'⟩ := length_outgoing_handle env c hroom
      obtain ⟨hmore', hroom''⟩ := ih _ n hroom'
      exact ⟨hmore.trans hmore', hroom''⟩

lemma outgoing_exec_full (p : Prog WorkerReply E α) (h : env.capacity ≤ s.stream.outgoing.length) :
    (p.exec env.handle s).2.stream.outgoing = s.stream.outgoing := by
  induction p generalizing s with
  | done r => rfl
  | ask c k ih =>
    have hcall : (env.handle c s).2.stream.outgoing = s.stream.outgoing := by
      cases c with
      | vault m => rfl
      | own c =>
        cases c with
        | send reply =>
          show (env.send reply s).2.stream.outgoing = _
          unfold AuthEnv.send
          split
          · simp [CryptWriter.writeAll, Nat.sub_eq_zero_of_le h]
          · rfl
        | _ => rfl
    rw [Prog.exec, ih _ (by rwa [hcall]), hcall]

/-- As long as no more bytes are sent than the socket takes, it makes no difference how many it
would take. -/
lemma handle_withCapacity {c : ℕ} (call : WorkerCall) (hc : c ≤ env.capacity)
    (h : (env.handle call s).2.stream.outgoing.length ≤ c) :
    (env.withCapacity c).handle call s = env.handle call s := by
  cases call with
  | vault m => rfl
  | own call =>
    cases call with
    | send reply =>
      have hsent : (env.send reply s).2.stream.outgoing.length ≤ c := h
      show (env.withCapacity c).send reply s = env.send reply s
      unfold AuthEnv.send at hsent ⊢
      cases hwrite : reply.streamWrite with
      | error e => rfl
      | ok b =>
        rw [hwrite] at hsent
        simp only [CryptWriter.writeAll, Cipher.applyKeystream, List.length_append,
          List.length_take, length_xorFrom] at hsent
        by_cases hfull : c = env.capacity
        · subst hfull
          rfl
        · have hb : b.length ≤ c - s.stream.outgoing.length := by omega
          have hb' : b.length ≤ env.capacity - s.stream.outgoing.length := by omega
          dsimp only
          rw [s.stream.writeAll_of_le hb', s.stream.writeAll_of_le (show b.length ≤
            (env.withCapacity c).capacity - s.stream.outgoing.length from hb)]
    | _ => rfl

/-- **A task that is cut off** has sent what it would have sent on a socket that takes nothing more
from then on. -/
lemma exec_withCapacity (p : Prog WorkerReply E α) (n : ℕ)
    (hroom : s.stream.outgoing.length ≤ env.capacity) :
    (p.exec (env.withCapacity
        (p.execFor env.handle n s).2.stream.outgoing.length).handle s).2.stream.outgoing =
      (p.execFor env.handle n s).2.stream.outgoing := by
  induction p generalizing n s with
  | done r => rfl
  | ask c k ih =>
    cases n with
    | zero => exact outgoing_exec_full _ (.ask c k) le_rfl
    | succ n =>
      obtain ⟨-, hroom'⟩ := length_outgoing_handle env c hroom
      obtain ⟨hmore, hfits⟩ := length_outgoing_execFor env (k (env.handle c s).1) n hroom'
      rw [Prog.execFor, Prog.exec, handle_withCapacity env c hfits hmore]
      exact ih _ n hroom'

end Cut

lemma sessionTalk_exec {X : Hashes.Crates} (sdl : SdlHost X) (config : ServerConfig)
    (env : AuthEnv) (key : ℕ → UInt8) (serverChallenge : UInt32) (events : List Event) :
    let out := (startWorker sdl config events).exec env.handle (.start key serverChallenge)
    SessionTalk config serverChallenge events (out.2.seen key) out.2.left out.1 := by
  have hstart : Stands key env.capacity serverChallenge (.start key serverChallenge)
      ⟨[], .up, false⟩ :=
    ⟨rfl, rfl, fun _ => ⟨[], .nil, .start key⟩, fun h => absurd rfl h, nofun⟩
  obtain ⟨l, hstands, htalk⟩ := (says_startWorker sdl events).exec Stands.serve hstart
  dsimp only
  rw [hstands.seen, hstands.left]
  exact htalk

/-- **A session of the auth server**: whatever the vault answers, whatever happens to the files,
wherever the socket fails and wherever a log message panics, the client reads the server's
capabilities and then one group of replies for each event, in their order, and of the next event a
part at most. If no log message panics, a worker that waits has answered every event; one that has
left could not read on, was told of another build, or could not send; one that has crashed has said
nothing to the message that made it crash. -/
theorem authSession_answers {X : Hashes.Crates} (sdl : SdlHost X) (config : ServerConfig)
    (env : AuthEnv) (key : ℕ → UInt8) (serverChallenge : UInt32) (events : List Event) :
    let out := runSocket sdl config env key serverChallenge events
    ∃ hello done rest groups part, events = done ++ rest ∧
      List.Forall₂ (Answered config serverChallenge) done groups ∧
      out.2.seen key = hello ++ (groups.flatten ++ part) ∧
      (hello = [capsReply] ∨ hello = [] ∧ groups.flatten ++ part = []) ∧
      Begun config serverChallenge rest part ∧
      (env.panics = none →
        (out.2.left = true → Leaves config serverChallenge rest part) ∧
        (out.2.left = false →
          out.1 = .ok () ∧ rest = [] ∧ part = [] ∨ out.1 = .crash ∧ Crashed rest part)) := by
  have hbegun {rest : List Event} {part : List AuthToCli} {left : Bool} {r : Result Empty Unit}
      (hleaves : left = true → Leaves config serverChallenge rest part)
      (hstays : left = false →
        r = .ok () ∧ rest = [] ∧ part = [] ∨ r = .crash ∧ Crashed rest part) :
      Begun config serverChallenge rest part := by
    cases left with
    | true => exact (hleaves rfl).begun
    | false => exact .inl ((hstays rfl).elim (fun h => h.2.2) fun h => h.2.1)
  dsimp only
  unfold runSocket
  cases hpanics : env.panics with
  | none =>
    obtain ⟨hello, done, rest, groups, part, hevents, hdone, hseen, hhello, hleaves, hstays⟩ :=
      sessionTalk_exec sdl config env key serverChallenge events
    exact ⟨hello, done, rest, groups, part, hevents, hdone, hseen, hhello, hbegun hleaves hstays,
      fun _ => ⟨hleaves, hstays⟩⟩
  | some n =>
    have hcut := exec_withCapacity env (startWorker sdl config events) n
      (s := .start key serverChallenge) (Nat.zero_le _)
    obtain ⟨hello, done, rest, groups, part, hevents, hdone, hseen, hhello, hleaves, hstays⟩ :=
      sessionTalk_exec sdl config (env.withCapacity _) key serverChallenge events
    rw [AuthSocket.seen, CryptWriter.seen, hcut] at hseen
    exact ⟨hello, done, rest, groups, part, hevents, hdone, hseen, hhello, hbegun hleaves hstays,
      fun hnone => by cases hnone⟩

end Moulars.Auth
