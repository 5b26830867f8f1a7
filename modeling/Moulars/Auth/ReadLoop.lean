import Moulars.Auth.Messages
import Moulars.Net.Buffered

/-!
The loop of an auth server worker that waits for vault broadcasts and for client messages at the
same time.

Whatever was not ready is dropped when the other one was. A broadcast that is taken while a message
is only partly read drops the bytes of it that have come in; and a large read that goes down to the
encrypted stream a second time garbles what it had.
-/

namespace Moulars.Auth

open Lib.Wire Lib.Clients Lib.AsyncRead Lib.MessageLoop
open Net.Crypt Vault

/-! ### The loop -/

/-- A connection as its worker sees it, with the messages handled so far. A broadcast that was
missed because the queue was full is a `none`. -/
structure Conn where
  queue : List (Option VaultBroadcast)
  client : CryptLoop CliToAuth (List CliToAuth)

def Conn.start (key : ℕ → UInt8) : Conn := ⟨[], .start CliToAuth.read ⟨⟨[]⟩, ⟨key, 0⟩⟩ []⟩

inductive ConnEvent
  /-- the client sends bytes -/
  | arrive (bs : Bytes)
  /-- the client closes the connection -/
  | close
  | broadcast (msg : Option VaultBroadcast)
  /-- one turn of the loop; `goOn` is what the handler returns, if one is called -/
  | poll (goOn : Bool)

/-- `handle_message`, as far as the loop is concerned. -/
def record (goOn : Bool) (message : CliToAuth) (handled : List CliToAuth) :
    Bool × List CliToAuth :=
  (goOn, handled ++ [message])

/-- One turn: `select!` over the broadcast and the client's message, in this order. -/
def Conn.turn (c : Conn) (goOn : Bool) : Conn :=
  match c.queue with
  | some _ :: queue =>
    ⟨queue, c.client.interrupt CliToAuth.read (if goOn then .running else .dropped)⟩
  | none :: queue => ⟨queue, c.client.interrupt CliToAuth.read .running⟩
  | [] => { c with client := c.client.turn CliToAuth.read record goOn }

def Conn.step (key : ℕ → UInt8) (c : Conn) : ConnEvent → Conn
  | .arrive bs => { c with client := c.client.step CliToAuth.read record key (.arrive bs) }
  | .close => { c with client := c.client.step CliToAuth.read record key .close }
  | .broadcast msg => { c with queue := c.queue ++ [msg] }
  | .poll goOn => match c.client.status with
    | .running => c.turn goOn
    | _ => c

def Conn.run (key : ℕ → UInt8) (events : List ConnEvent) : Conn :=
  events.foldl (Conn.step key) (Conn.start key)

/-! ### Faithful handling -/

/-- What is handled is what the bytes received decode to: always a part of it from the start,
all of it once the worker waits for more, and all of it when the worker has given up. -/
structure Faithful (c : CryptLoop CliToAuth (List CliToAuth)) : Prop where
  sound : c.state <+: decode CliToAuth.read c.received
  complete : c.status = .running → c.reader.avail = [] →
    c.state = decode CliToAuth.read c.received
  failed : ∀ e, c.status = .failed e → c.state = decode CliToAuth.read c.received

/-- A broadcast is taken only while no byte of the next message has been. -/
def Undisturbed (c : Conn) : ConnEvent → Prop
  | .poll _ => c.client.status = .running → c.queue ≠ [] → c.client.future.taken = []
  | _ => True

def AllUndisturbed (key : ℕ → UInt8) : Conn → List ConnEvent → Prop
  | _, [] => True
  | c, e :: es => Undisturbed c e ∧ AllUndisturbed key (c.step key e) es

lemma consumes_read : Consumes CliToAuth.read := consumes_ask (n := 2) (by decide) _

/-- The messages handled are those of the first bytes received. -/
structure Conn.Inv (key : ℕ → UInt8) (c : Conn) : Prop where
  client : c.client.InStep key
  plain : Lib.MessageLoop.Inv CliToAuth.read (fun done handled => handled = done)
    (fun done handled => handled = done) c.client.plain

lemma Conn.Inv.start (key : ℕ → UInt8) : (Conn.start key).Inv key where
  client := .start _ _ key
  plain := .start rfl

lemma Conn.calls_step (key : ℕ → UInt8) (c : Conn) (e : ConnEvent) :
    c.client.reader.calls <+: (c.step key e).client.reader.calls := by
  cases e with
  | arrive bs => exact c.client.calls_step CliToAuth.read record key (.arrive bs)
  | close => exact List.prefix_rfl
  | broadcast msg => exact List.prefix_rfl
  | poll goOn =>
    rw [Conn.step]
    split
    · unfold Conn.turn
      split
      · exact List.prefix_rfl
      · exact List.prefix_rfl
      · exact c.client.calls_turn goOn
    · exact List.prefix_rfl

lemma Conn.calls_foldl (key : ℕ → UInt8) (c : Conn) (events : List ConnEvent) :
    c.client.reader.calls <+: (events.foldl (Conn.step key) c).client.reader.calls := by
  induction events generalizing c with
  | nil => exact List.prefix_rfl
  | cons e events ih => exact (c.calls_step key e).trans (ih _)

section

variable {key : ℕ → UInt8} {c : Conn}

lemma Conn.Inv.loop (h : c.Inv key) {e : LoopEvent Bool}
    (hfresh : (c.client.step CliToAuth.read record key e).reader.AllFresh) :
    Conn.Inv key { c with client := c.client.step CliToAuth.read record key e } := by
  obtain ⟨hstep, hplain⟩ := h.client.step hfresh
  refine ⟨hstep, ?_⟩
  rw [show Conn.client { c with client := c.client.step CliToAuth.read record key e } =
    c.client.step CliToAuth.read record key e from rfl, hplain]
  exact h.plain.step consumes_read (fun _ _ _ _ hI _ => congrArg (· ++ _) hI)
    (fun _ _ _ _ hI _ => congrArg (· ++ _) hI) e

/-- A broadcast; the future that is dropped has taken nothing. -/
lemma Conn.Inv.interrupt (h : c.Inv key) (hrun : c.client.status = .running)
    (htaken : c.client.future.taken = []) (queue : List (Option VaultBroadcast)) (goOn : Bool) :
    Conn.Inv key
      ⟨queue, c.client.interrupt CliToAuth.read (if goOn then .running else .dropped)⟩ where
  client := ⟨h.client.key, h.client.total, waits_nil _⟩
  plain := by
    refine h.plain.interrupt hrun htaken (fun done hI => ?_) fun e he => ?_
    · cases goOn
      · exact ⟨nofun, fun _ => hI⟩
      · exact ⟨fun _ => hI, nofun⟩
    · cases goOn <;> cases he

lemma Conn.Inv.step (h : c.Inv key) {e : ConnEvent} (he : Undisturbed c e)
    (hfresh : (c.step key e).client.reader.AllFresh) : (c.step key e).Inv key := by
  cases e with
  | arrive bs => exact h.loop hfresh
  | close => exact h.loop hfresh
  | broadcast msg => exact ⟨h.client, h.plain⟩
  | poll goOn =>
    rw [Conn.step] at hfresh ⊢
    split
    · rename_i hrun
      rw [hrun] at hfresh
      have hquiet := he hrun
      dsimp only at hfresh
      unfold Conn.turn at hfresh ⊢
      split
      · rename_i hq
        exact h.interrupt hrun (hquiet (by rw [hq]; simp)) _ goOn
      · rename_i hq
        exact h.interrupt hrun (hquiet (by rw [hq]; simp)) _ true
      · rename_i hq
        rw [hq] at hfresh
        have hturn : c.client.step CliToAuth.read record key (.turn goOn) =
            c.client.turn CliToAuth.read record goOn := by
          rw [CryptLoop.step, hrun]
        have hloop := h.loop (e := .turn goOn) (by rw [hturn]; exact hfresh)
        rwa [hturn] at hloop
    · exact h

lemma Conn.Inv.run (h : c.Inv key) {events : List ConnEvent} (he : AllUndisturbed key c events)
    (hfresh : (events.foldl (Conn.step key) c).client.reader.AllFresh) :
    (events.foldl (Conn.step key) c).Inv key := by
  induction events generalizing c with
  | nil => exact h
  | cons e events ih =>
    exact ih (h.step he.1 (hfresh.of_calls (Conn.calls_foldl key _ events))) he.2 hfresh

lemma Conn.Inv.faithful (h : c.Inv key) : Faithful c.client := by
  obtain ⟨hrunning, hdropped, hfailed⟩ := h.plain.served
  refine ⟨?_, fun hrun havail => ?_, fun e he => hfailed e he⟩
  · cases hstatus : c.client.status with
    | running =>
      obtain ⟨done, rest, hdecode, rfl, -⟩ := hrunning hstatus
      exact ⟨rest, hdecode.symm⟩
    | dropped =>
      obtain ⟨done, rest, hdecode, rfl⟩ := hdropped hstatus
      exact ⟨rest, hdecode.symm⟩
    | failed e => exact (hfailed e hstatus) ▸ List.prefix_rfl
  · obtain ⟨done, rest, hdecode, rfl, hrest⟩ := hrunning hrun
    rw [hrest havail, List.append_nil] at hdecode
    exact hdecode.symm

end

/-- **Client messages are handled faithfully** in every state reached by a run in which no
broadcast is taken while a message is only partly read, and no call of `poll_read` on the encrypted
stream that gets something comes with bytes that are there already: however the bytes are split
over time, and wherever broadcasts arrive. -/
theorem messages_faithful {key : ℕ → UInt8} {events : List ConnEvent}
    (h : AllUndisturbed key (Conn.start key) events)
    (hfresh : ∀ call ∈ (Conn.run key events).client.reader.calls, call.Fresh) :
    Faithful (Conn.run key events).client :=
  ((Conn.Inv.start key).run h hfresh).faithful

/-- A message in two parts, with a broadcast that comes after it. -/
def quietRun : List ConnEvent :=
  [.arrive [1, 0, 0], .poll true, .arrive [0, 0, 0], .poll true,
    .broadcast (some (.nodeAdded 1 2 0)), .poll true]

theorem quietRun_faithful : (Conn.run sampleKey quietRun).client.state.length = 1 ∧
    (Conn.run sampleKey quietRun).client.reader.calls.length = 3 ∧
    Faithful (Conn.run sampleKey quietRun).client := by
  refine ⟨by decide +kernel, by decide +kernel, messages_faithful ?_ ?_⟩
  · refine ⟨trivial, fun _ h => absurd rfl h, trivial, fun _ h => absurd rfl h, trivial,
      fun _ _ => ?_, trivial⟩
    exact List.eq_nil_of_length_eq_zero (by decide +kernel)
  · have hall : (Conn.run sampleKey quietRun).client.reader.calls.all
        (fun call => decide (call.stale = 0)) = true := by
      decide +kernel
    intro call hcall
    exact call.fresh_iff.2 (of_decide_eq_true (List.all_eq_true.1 hall call hcall))

/-- The same message with the broadcast between its parts. -/
def disturbedRun : List ConnEvent :=
  [.arrive [1], .poll true, .broadcast (some (.nodeAdded 1 2 0)), .poll true,
    .arrive [0, 0, 0, 0, 0], .poll true]

/-- The byte that had come is lost: the worker takes the rest for the start of another message
and waits for more, and the message is never handled. -/
theorem disturbedRun_loses_message :
    (decode CliToAuth.read (Conn.run sampleKey disturbedRun).client.received).length = 1 ∧
      (Conn.run sampleKey disturbedRun).client.state.length = 0 ∧
      ¬ Faithful (Conn.run sampleKey disturbedRun).client := by
  have hsent : (decode CliToAuth.read
      (Conn.run sampleKey disturbedRun).client.received).length = 1 := by decide +kernel
  have hhandled : (Conn.run sampleKey disturbedRun).client.state.length = 0 := by
    decide +kernel
  refine ⟨hsent, hhandled, fun h => ?_⟩
  have hall := h.complete ?_ (List.eq_nil_of_length_eq_zero (by decide +kernel))
  · rw [← hall, hhandled] at hsent
    cases hsent
  · decide +kernel

end Moulars.Auth
