import Moulars.Auth.Selection

/-!
Players whose worker has crashed.

A task that crashes does not run `handle_disconnect`. The player that it has selected stays online,
and since no other worker sets it offline, it can never be selected again.
-/

namespace Moulars.Auth

open Lib.Clients Hashes Vault

/-- **A crash locks the player**: once a worker has crashed while it had selected the player, the
player is online forever after, and no other worker finds it offline or selects it, as long as all
steps are those of `OneAtATime`. -/
theorem crash_locks_player {ι : Type} [DecidableEq ι] {X : Crates} (sdl : SdlHost X)
    (config : ServerConfig) (challenges : ι → UInt32) (events : ι → List Event)
    {s t : WorkerPool ι}
    (hs : Runs (serveWorkers X) OneAtATime (workerPool sdl config challenges events initial) s)
    {i : ι} {p : UInt32} (hcrash : (s.clients i).prog = .done .crash)
    (hlive : (s.owns i).doing.Live) (hplayer : (s.owns i).worker.playerId = some p)
    (ht : Runs (serveWorkers X) OneAtATime s t) :
    (∃ k, t.server.graph.Child p k ∧ t.server.graph.infoAt k = some (p, true)) ∧
      ∀ j, j ≠ i → ¬ (t.owns j).Claims p := by
  have hexclusive : Exclusive t.server.graph t.owns :=
    runs_keep (I := fun db ls => Exclusive db.graph ls) (hs.trans ht)
      (Exclusive.initial challenges)
      (fun db ls i c r hs hc _ => hs.weaken (.refl _) (Session.weaker_own r hc))
      (fun db ls i env m o hs hm hfine ho => hs.vault hm hfine ho)
  have hsame : t.owns i = s.owns i := congrArg Client.own (ht.client_of_done hcrash)
  have hhas : (t.owns i).Has p := by
    rw [hsame]
    exact .inl ⟨hplayer, hlive.not_released⟩
  exact ⟨hexclusive.online i p hhas, fun j hne hj => hne (hexclusive.unique j i p hj (.inl hhas))⟩

/-! ### A client that asks for an age -/

/-- One client selects a player and asks for an age, which is not implemented; another one wants the
same player. -/
def stranded : WorkerPool (Fin 2) := smallPool fun
  | 0 => [.message blankLogin, .message (.playerCreateRequest 2 "Yeesha" "female" ""),
      .message (.acctSetPlayerRequest 3 1003), .message (.ageRequest 4 "Personal" .nil)]
  | 1 => [.message blankLogin, .message (.acctSetPlayerRequest 2 1003)]

def crashed : WorkerProg Unit → Bool
  | .done .crash => true
  | _ => false

lemma eq_crash_of_crashed {prog : WorkerProg Unit} (h : crashed prog = true) :
    prog = .done .crash := by
  unfold crashed at h
  split at h
  · rfl
  · cases h

/-- The first client is disconnected by the crash; the second one is told that the player is logged
in elsewhere. -/
theorem stranded_locked : ∃ s t, Runs (serveWorkers smallCrates) OneAtATime stranded s ∧
    (s.clients 0).prog = .done .crash ∧ Runs (serveWorkers smallCrates) OneAtATime s t ∧
    setPlayerResult (t.clients 1).prog = some NetResultCode.netLoggedInElsewhere.code ∧
    (∃ k, t.server.graph.Child 1003 k ∧ t.server.graph.infoAt k = some (1003, true)) ∧
    ∀ j, j ≠ 0 → ¬ (t.owns j).Claims 1003 := by
  have hrun : ((stranded.replay (serveWorkers smallCrates) OneAtATime (steps [(84, 0)])).bind
      fun s => (s.replay (serveWorkers smallCrates) OneAtATime (steps [(15, 1)])).map fun t =>
        (crashed (s.clients 0).prog, (s.owns 0).doing.ctorIdx, (s.owns 0).worker.playerId,
          setPlayerResult (t.clients 1).prog)) =
            some (true, (Doing.handling blankLogin).ctorIdx, some 1003,
              some NetResultCode.netLoggedInElsewhere.code) := by
    decide +kernel
  obtain ⟨s, hs, ht⟩ := Option.bind_eq_some_iff.1 hrun
  obtain ⟨t, ht, heq⟩ := Option.map_eq_some_iff.1 ht
  obtain ⟨hcrashed, heq⟩ := Prod.mk.inj heq
  obtain ⟨hdoing, heq⟩ := Prod.mk.inj heq
  obtain ⟨hplayer, hresult⟩ := Prod.mk.inj heq
  have hlive : (s.owns 0).doing.Live := by
    cases hd : (s.owns 0).doing with
    | handling message => trivial
    | _ =>
      rw [hd] at hdoing
      cases hdoing
  have hcrash := eq_crash_of_crashed hcrashed
  have hruns := Runs.start.replay hs
  have hmore := Runs.start.replay ht
  exact ⟨s, t, hruns, hcrash, hmore, hresult,
    crash_locks_player _ _ _ _ hruns hcrash hlive hplayer hmore⟩

end Moulars.Auth
