import Mathlib.Data.List.Forall2
import Moulars.Vault.Node

/-!
The lobby: it reads the header of every connection and hands the connection to a server.

The lobby's loop has one connection at a time: it waits for the header of a connection before it
accepts another. What becomes of a connection is decided by its own bytes, but whether anything
becomes of it also by those that came before.
-/

namespace Moulars.Lobby

open Lib.Wire Vault

/-! ### Headers -/

structure ConnectionHeader where
  connType : UInt8
  buildId : UInt32
  buildType : UInt32
  branchId : UInt32
  productId : Uuid

def connHeaderSize : UInt16 := 31

def ConnectionHeader.streamRead : Reader ConnectionHeader := do
  let connType ← Reader.u8
  let sockHeaderSize ← Reader.u16
  if sockHeaderSize ≠ connHeaderSize then
    Reader.fail (.error s!"Invalid socket header size: {sockHeaderSize.toNat}")
  else do
    let buildId ← Reader.u32
    let buildType ← Reader.u32
    let branchId ← Reader.u32
    let productId ← Uuid.streamRead
    pure ⟨connType, buildId, buildType, branchId, productId⟩

def connCliToAuth : UInt8 := 10
def connCliToGame : UInt8 := 11
def connCliToFile : UInt8 := 16
def connCliToGateKeeper : UInt8 := 22

inductive Service
  | authServer
  | fileServer
  | gateKeeper

inductive Outcome
  | added (service : Service)
  /-- the client is a CSR client, or of no known type -/
  | rejected
  /-- the header could not be read -/
  | failed (e : Fault)

inductive Verdict
  /-- the header is not there yet -/
  | waiting
  | settled (outcome : Outcome)
  /-- game connections are a `todo!()` -/
  | panics

/-- A connection: what its client has sent, and whether the client has closed it. -/
structure Conn where
  sent : Bytes
  closed : Bool

/-- `accept_client` on the bytes of a header. -/
def route (buffer : Bytes) : Verdict :=
  match ConnectionHeader.streamRead.run buffer with
  | .error e => .settled (.failed e)
  | .ok (header, _) =>
    if header.connType = connCliToGateKeeper then .settled (.added .gateKeeper)
    else if header.connType = connCliToFile then .settled (.added .fileServer)
    else if header.connType = connCliToAuth then .settled (.added .authServer)
    else if header.connType = connCliToGame then .panics
    else .settled .rejected

/-- `accept_client`, as far as the bytes sent allow. -/
def acceptClient (c : Conn) : Verdict :=
  if connHeaderSize.toNat ≤ c.sent.length then route (c.sent.take connHeaderSize.toNat)
  else if c.closed then .settled (.failed .eof)
  else .waiting

/-! ### The loop -/

inductive Status
  | running
  | shutDown
  | panicked

/-- The connections in the order in which they are accepted, and what became of the first ones. -/
structure LobbyServer where
  conns : List Conn
  outcomes : List Outcome
  status : Status

def LobbyServer.start : LobbyServer := ⟨[], [], .running⟩

inductive LobbyEvent
  | connect
  | arrive (i : ℕ) (bs : Bytes)
  | close (i : ℕ)
  /-- the loop is polled -/
  | turn
  /-- the shutdown signal is taken -/
  | shutDown

/-- The loop goes on with the connection it has, or the next one. -/
def LobbyServer.turn (l : LobbyServer) : LobbyServer :=
  match l.status with
  | .running => match l.conns[l.outcomes.length]? with
    | some c => match acceptClient c with
      | .settled outcome => { l with outcomes := l.outcomes ++ [outcome] }
      | .panics => { l with status := .panicked }
      | .waiting => l
    | none => l
  | _ => l

def Conn.arrive (bs : Bytes) (c : Conn) : Conn :=
  if c.closed then c else { c with sent := c.sent ++ bs }

def Conn.close (c : Conn) : Conn := { c with closed := true }

def LobbyServer.step (l : LobbyServer) : LobbyEvent → LobbyServer
  | .connect => { l with conns := l.conns ++ [⟨[], false⟩] }
  | .arrive i bs => { l with conns := l.conns.modify i (Conn.arrive bs) }
  | .close i => { l with conns := l.conns.modify i Conn.close }
  | .turn => l.turn
  | .shutDown => match l.status with
    | .running => { l with status := .shutDown }
    | _ => l

/-! ### What the connections' bytes determine -/

/-- The outcomes of the connections up to the first one that is not settled, and whether that one
ends the loop. -/
def routeAll : List Conn → List Outcome × Bool
  | [] => ([], false)
  | c :: cs => match acceptClient c with
    | .settled outcome => (outcome :: (routeAll cs).1, (routeAll cs).2)
    | .panics => ([], true)
    | .waiting => ([], false)

lemma length_routeAll (cs : List Conn) : (routeAll cs).1.length ≤ cs.length := by
  induction cs with
  | nil => exact Nat.le_refl _
  | cons c cs ih =>
    rw [routeAll]
    cases acceptClient c with
    | waiting => exact Nat.zero_le _
    | panics => exact Nat.zero_le _
    | settled outcome => exact Nat.succ_le_succ ih

/-- A connection may have gone on, but what is decided about it stays. -/
def Grows (c c' : Conn) : Prop := acceptClient c = .waiting ∨ acceptClient c' = acceptClient c

lemma grows_arrive (bs : Bytes) (c : Conn) : Grows c (c.arrive bs) := by
  unfold Conn.arrive
  split
  · exact .inr rfl
  · rename_i hopen
    unfold Grows acceptClient
    by_cases hlen : connHeaderSize.toNat ≤ c.sent.length
    · -- the header is among the bytes that had come before
      have hlen' : connHeaderSize.toNat ≤ (c.sent ++ bs).length := by
        rw [List.length_append]
        omega
      right
      rw [if_pos hlen, if_pos hlen', List.take_append_of_le_length hlen]
    · left
      rw [if_neg hlen, if_neg hopen]

lemma grows_close (c : Conn) : Grows c c.close := by
  obtain ⟨sent, closed⟩ := c
  unfold Grows acceptClient Conn.close
  dsimp only
  by_cases hlen : connHeaderSize.toNat ≤ sent.length
  · right
    rw [if_pos hlen, if_pos hlen]
  · cases closed with
    | true => exact .inr rfl
    | false =>
      left
      rw [if_neg hlen]
      rfl

lemma forall₂_modify {f : Conn → Conn} (hf : ∀ c, Grows c (f c)) (cs : List Conn) (i : ℕ) :
    List.Forall₂ Grows cs (cs.modify i f) := by
  induction cs generalizing i with
  | nil => simp
  | cons c cs ih =>
    cases i with
    | zero => exact .cons (hf c) (List.forall₂_same.2 fun _ _ => .inr rfl)
    | succ i => exact .cons (.inr rfl) (ih i)

lemma routeAll_grows {cs cs' : List Conn} (h : List.Forall₂ Grows cs cs') (more : List Conn) :
    (routeAll cs).1 <+: (routeAll (cs' ++ more)).1 ∧
      ((routeAll cs).2 = true → routeAll (cs' ++ more) = routeAll cs) := by
  induction h with
  | nil => exact ⟨List.nil_prefix, fun h => Bool.noConfusion h⟩
  | @cons c c' cs cs' hc _ ih =>
    rcases hc with hwait | heq
    · simp only [routeAll, hwait]
      exact ⟨List.nil_prefix, fun h => Bool.noConfusion h⟩
    · rw [List.cons_append, routeAll, routeAll, heq]
      cases acceptClient c with
      | waiting => exact ⟨List.nil_prefix, fun h => Bool.noConfusion h⟩
      | panics => exact ⟨List.nil_prefix, fun _ => rfl⟩
      | settled outcome =>
        refine ⟨(List.prefix_cons_inj _).2 ih.1, fun hpanic => ?_⟩
        rw [ih.2 hpanic]

/-- What the next connection has to do with the outcomes to come. -/
def NextStep (cs : List Conn) (outcomes : List Outcome) : Option Verdict → Prop
  | some (.settled outcome) => outcomes ++ [outcome] <+: (routeAll cs).1
  | some .panics => routeAll cs = (outcomes, true)
  | some .waiting => routeAll cs = (outcomes, false)
  | none => routeAll cs = (outcomes, false)

lemma nextStep {cs : List Conn} {outcomes : List Outcome} (h : outcomes <+: (routeAll cs).1) :
    NextStep cs outcomes (cs[outcomes.length]?.map acceptClient) := by
  induction cs generalizing outcomes with
  | nil =>
    obtain rfl := List.prefix_nil.1 h
    rfl
  | cons c cs ih =>
    cases outcomes with
    | nil =>
      simp only [List.length_nil, List.getElem?_cons_zero, Option.map_some]
      cases hc : acceptClient c with
      | waiting => simp only [NextStep, routeAll, hc]
      | panics => simp only [NextStep, routeAll, hc]
      | settled outcome =>
        simp only [NextStep, routeAll, hc]
        exact ⟨_, rfl⟩
    | cons outcome outcomes =>
      cases hc : acceptClient c with
      | waiting =>
        simp only [routeAll, hc] at h
        exact absurd (List.prefix_nil.1 h) (by simp)
      | panics =>
        simp only [routeAll, hc] at h
        exact absurd (List.prefix_nil.1 h) (by simp)
      | settled o =>
        have hroute : routeAll (c :: cs) = (o :: (routeAll cs).1, (routeAll cs).2) := by
          simp only [routeAll, hc]
        rw [hroute] at h
        obtain ⟨rfl, hrest⟩ := List.cons_prefix_cons.1 h
        have hnext := ih hrest
        simp only [List.length_cons, List.getElem?_cons_succ]
        generalize cs[outcomes.length]?.map acceptClient = verdict at hnext ⊢
        match verdict with
        | some (.settled o') =>
          unfold NextStep at hnext ⊢
          rw [hroute]
          exact (List.prefix_cons_inj _).2 hnext
        | some .panics | some .waiting | none =>
          unfold NextStep at hnext ⊢
          rw [hroute, hnext]

/-! ### Runs -/

/-- The outcomes are the first of those that the connections' bytes determine; once the loop has
panicked they are all of them, and the next connection is for the game server. -/
structure LobbyServer.Inv (l : LobbyServer) : Prop where
  outcomes : l.outcomes <+: (routeAll l.conns).1
  panicked : l.status = .panicked → routeAll l.conns = (l.outcomes, true)

lemma LobbyServer.turn_eq {l : LobbyServer} (hrun : l.status = .running) :
    l.turn = match l.conns[l.outcomes.length]?.map acceptClient with
      | some (.settled outcome) => { l with outcomes := l.outcomes ++ [outcome] }
      | some .panics => { l with status := .panicked }
      | some .waiting => l
      | none => l := by
  unfold LobbyServer.turn
  rw [hrun]
  cases l.conns[l.outcomes.length]? with
  | none => rfl
  | some c =>
    simp only [Option.map_some]
    cases acceptClient c <;> rfl

lemma LobbyServer.turn_stopped {l : LobbyServer} (h : l.status ≠ .running) : l.turn = l := by
  unfold LobbyServer.turn
  split
  · rename_i hrun
    exact absurd hrun h
  · rfl

lemma LobbyServer.Inv.turn {l : LobbyServer} (h : l.Inv) : l.turn.Inv := by
  by_cases hrun : l.status = .running
  · have hnext := nextStep h.outcomes
    rw [LobbyServer.turn_eq hrun]
    generalize l.conns[l.outcomes.length]?.map acceptClient = verdict at hnext ⊢
    match verdict with
    | some (.settled outcome) => exact ⟨hnext, fun hp => absurd (hrun.symm.trans hp) (by simp)⟩
    | some .panics => exact ⟨h.outcomes, fun _ => hnext⟩
    | some .waiting => exact h
    | none => exact h
  · rw [LobbyServer.turn_stopped hrun]
    exact h

lemma LobbyServer.Inv.grows {l : LobbyServer} (h : l.Inv) {conns : List Conn}
    (hgrows : List.Forall₂ Grows l.conns conns) (more : List Conn) :
    LobbyServer.Inv { l with conns := conns ++ more } := by
  obtain ⟨hahead, hpanic⟩ := routeAll_grows hgrows more
  refine ⟨h.outcomes.trans hahead, fun hp => ?_⟩
  have heq := h.panicked hp
  rw [hpanic (by rw [heq]), heq]

lemma LobbyServer.Inv.step {l : LobbyServer} (h : l.Inv) (e : LobbyEvent) : (l.step e).Inv := by
  cases e with
  | connect => exact h.grows (List.forall₂_same.2 fun _ _ => .inr rfl) _
  | arrive i bs =>
    have hgrows := h.grows (forall₂_modify (grows_arrive bs) l.conns i) []
    rwa [List.append_nil] at hgrows
  | close i =>
    have hgrows := h.grows (forall₂_modify grows_close l.conns i) []
    rwa [List.append_nil] at hgrows
  | turn => exact h.turn
  | shutDown =>
    unfold LobbyServer.step
    dsimp only
    split
    · exact ⟨h.outcomes, nofun⟩
    · exact h

lemma LobbyServer.Inv.run (events : List LobbyEvent) :
    (events.foldl LobbyServer.step .start).Inv := by
  have hfold (l : LobbyServer) (hl : l.Inv) : (events.foldl LobbyServer.step l).Inv := by
    induction events generalizing l with
    | nil => exact hl
    | cons e events ih => exact ih _ (hl.step e)
  exact hfold _ ⟨List.nil_prefix, nofun⟩

/-- The loop when it has got as far as it can. -/
def LobbyServer.settle (l : LobbyServer) : LobbyServer :=
  { l with outcomes := (routeAll l.conns).1
           status := if (routeAll l.conns).2 then .panicked else .running }

lemma LobbyServer.Inv.turns {l : LobbyServer} (h : l.Inv) (hrun : l.status = .running) {n : ℕ}
    (hn : (routeAll l.conns).1.length < l.outcomes.length + n) :
    LobbyServer.turn^[n] l = l.settle := by
  induction n generalizing l with
  | zero => exact absurd h.outcomes.length_le (by omega)
  | succ n ih =>
    have hnext := nextStep h.outcomes
    have hturn := LobbyServer.turn_eq hrun
    have hinv := h.turn
    rw [Function.iterate_succ_apply]
    generalize l.conns[l.outcomes.length]?.map acceptClient = verdict at hnext hturn
    match verdict with
    | some (.settled outcome) =>
      dsimp only at hturn
      rw [hturn] at hinv ⊢
      refine ih hinv hrun ?_
      show (routeAll l.conns).1.length < (l.outcomes ++ [outcome]).length + n
      rw [List.length_append, List.length_singleton]
      omega
    | some .panics =>
      unfold NextStep at hnext
      dsimp only at hturn
      rw [hturn, Function.iterate_fixed (LobbyServer.turn_stopped (by simp)), settle, hnext]
      rfl
    | some .waiting | none =>
      unfold NextStep at hnext
      dsimp only at hturn
      rw [hturn, Function.iterate_fixed hturn, settle, hnext, ← hrun]
      rfl

/-- **The lobby goes through its connections one by one**: in every run, the outcomes so far are
those that the connections' own bytes determine, up to the first connection whose header has not
arrived or is one of a game client. A game client's header ends the loop; otherwise the loop gets as
far as that, if it is polled often enough. -/
theorem lobby_routes (events : List LobbyEvent) :
    let l := events.foldl LobbyServer.step .start
    l.outcomes <+: (routeAll l.conns).1 ∧
    (l.status = .panicked → routeAll l.conns = (l.outcomes, true)) ∧
    (l.status = .running → ∀ n > l.conns.length, LobbyServer.turn^[n] l = l.settle) := by
  have hinv := LobbyServer.Inv.run events
  refine ⟨hinv.outcomes, hinv.panicked, fun hrun n hn => hinv.turns hrun ?_⟩
  have hle := length_routeAll (events.foldl LobbyServer.step .start).conns
  omega

end Moulars.Lobby
