import Moulars.Auth.Sessions

/-!
One worker handling one message, with everything around it given: what the vault answers, what
the files and the key are, and which messages reach the client.
-/

namespace Moulars.Auth

open Lib.Wire Lib.Clients Lib.Paths Vault

structure Surroundings where
  vault : (m : VaultMessage) → VaultReply m
  ntdKey : Option (List UInt32)
  fromDir : String → String → Option Manifest
  openFile : Path → Option (UInt64 × List (Option Bytes))
  newV4 : Uuid
  /-- whether the `n`-th message can be sent -/
  sends : ℕ → Bool

/-- The worker, the values it has assigned to its `account_id`, and what it has sent, or tried to
send, on the way. -/
structure Connection where
  worker : AuthServerWorker
  accountIds : List Uuid
  sent : List AuthToCli

namespace Connection

def start (worker : AuthServerWorker) : Connection := ⟨worker, [], []⟩

def after (s : Connection) (c : OwnCall) : Connection where
  worker := s.worker.after (.own c)
  accountIds := match c with
    | .setAccountId accountId => s.accountIds ++ [accountId]
    | _ => s.accountIds
  sent := match c with
    | .send reply => s.sent ++ [reply]
    | _ => s.sent

def send (s : Connection) (reply : AuthToCli) : Connection :=
  { s with sent := s.sent ++ [reply] }

end Connection

namespace Surroundings

def ownReply (env : Surroundings) (s : Connection) : (c : OwnCall) → c.Reply
  | .self => s.worker
  | .send _ => env.sends s.sent.length
  | .newV4 => env.newV4
  | .getNtdKey => env.ntdKey
  | .fromDir dirName ext => env.fromDir dirName ext
  | .openFile path => env.openFile path
  | .wait => ()
  | .receive _ => ()
  | .drop => ()
  | .exit => ()
  | .setAccountId _ => ()
  | .setPlayerId _ => ()

def handle (env : Surroundings) : (c : WorkerCall) → Connection → WorkerReply c × Connection
  | .vault m, s => (env.vault m, s)
  | .own c, s => (env.ownReply s c, s.after c)

variable (env : Surroundings) {α : Type} (s : Connection)

lemma exec_vault_bind (m : VaultMessage) (f : VaultReply m → WorkerProg α) :
    (Auth.vault m >>= f).exec env.handle s = (f (env.vault m)).exec env.handle s := rfl

lemma exec_own_bind (c : OwnCall) (f : c.Reply → WorkerProg α) :
    (own c >>= f).exec env.handle s = (f (env.ownReply s c)).exec env.handle (s.after c) := rfl

lemma exec_sendMessage (reply : AuthToCli) :
    (sendMessage reply).exec env.handle s = (.ok (env.sends s.sent.length), s.send reply) := rfl

lemma exec_sendMessage_bind (reply : AuthToCli) (f : Bool → WorkerProg α) :
    (sendMessage reply >>= f).exec env.handle s =
      (f (env.sends s.sent.length)).exec env.handle (s.send reply) := rfl

end Surroundings

end Moulars.Auth
