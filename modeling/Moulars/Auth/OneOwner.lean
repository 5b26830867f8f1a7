import Moulars.Auth.OwnPlayer

/-!
Who is told that a player is theirs.

A worker that grants a request for a player has selected it, and no other worker has: neither at
that moment nor later, as long as the worker stays and keeps the player.
-/

namespace Moulars.Auth

open Lib.Clients Hashes Vault

variable {ι : Type}

/-- No player is the player of two live workers. -/
def OneOwner (ls : ι → Session) : Prop :=
  ∀ p i j, (ls i).doing.Live → (ls j).doing.Live → (ls i).worker.playerId = some p →
    (ls j).worker.playerId = some p → i = j

/-- The worker is about to answer a request for this player with `NetSuccess`. -/
def Grants (s : WorkerPool ι) (i : ι) (p : UInt32) : Prop :=
  (s.owns i).doing.Selects p ∧
    setPlayerResult (s.clients i).prog = some NetResultCode.netSuccess.code

/-- The worker is live and has this player. -/
def Plays (s : WorkerPool ι) (i : ι) (p : UInt32) : Prop :=
  (s.owns i).doing.Live ∧ (s.owns i).worker.playerId = some p

namespace Doing

lemma Selects.live {p : UInt32} {d : Doing} (h : d.Selects p) : d.Live := by
  cases d <;> trivial

lemma Selects.unique {p q : UInt32} {d : Doing} (hp : d.Selects p) (hq : d.Selects q) : p = q :=
  Option.some.inj (hp.symm.trans hq)

end Doing

lemma asks_of_setPlayerResult {s : WorkerPool ι} {i : ι} {result : Int32}
    (h : setPlayerResult (s.clients i).prog = some result) :
    ∃ transId, s.Asks i (.own (.send (.acctSetPlayerReply transId result))) := by
  unfold setPlayerResult at h
  split at h
  · rename_i transId _ k hprog
    cases h
    exact ⟨transId, k, hprog⟩
  · cases h

variable [DecidableEq ι] {X : Crates}

lemma Exclusive.noted {db db' : Backend} {ls : ι → Session × Noted} {i : ι} {v : World}
    {c : WorkerCall} {r : WorkerReply c} {l : Session} {n : Noted}
    (hs : Exclusive db.graph fun j => (ls j).1) (hc : workerContract.may (ls i).1 c)
    (hfine : OneAtATime db (fun j => (ls j).1) i c)
    (hserve : serveWorkers X v c (ls i).1 db = some (r, l, db')) :
    workerContract.gives (ls i).1 c r l ∧
      Exclusive db'.graph fun j => (Function.update ls i (l, n) j).1 := by
  refine ⟨serveWorkers_gives hserve, ?_⟩
  have hsame : (fun j => (Function.update ls i (l, n) j).1) =
      Function.update (fun j => (ls j).1) i l := by
    funext j
    by_cases hj : j = i
    · subst hj
      simp
    · simp [hj]
  rw [hsame]
  cases c with
  | own c =>
    cases hserve
    exact hs.weaken (.refl _) (Session.weaker_own _ hc)
  | vault m =>
    obtain ⟨o, ho, heq⟩ := Option.map_eq_some_iff.1 hserve
    cases heq
    exact hs.vault hc hfine ho

/-- **A worker that grants a request has the player**, and two workers never have the same one. -/
lemma owners (sdl : SdlHost X) (config : ServerConfig) (challenges : ι → UInt32)
    (events : ι → List Event) {s : WorkerPool ι}
    (h : Runs (serveWorkers X) OneAtATime (workerPool sdl config challenges events initial) s) :
    OneOwner s.owns ∧ ∀ i p, p ≠ 0 → Grants s i p → Plays s i p := by
  have hchecks (j : ι) : (startWorker sdl config (events j)).Keeps
      (workerContract.noting noteReply Checked) (fun _ _ => True) (.start (challenges j), none) :=
    Worker.checks_startWorker (events j)
  obtain ⟨n, hexclusive, hallowed⟩ := h.keeps_noting
    (I := fun db ls => Exclusive db.graph fun i => (ls i).1) (fun _ => none)
    (Exclusive.initial challenges) (fun _ => Worker.keeps_startWorker _ _) hchecks
    fun db ls i v c r l db' hs hc _ hfine hserve => hs.noted hc hfine hserve
  refine ⟨fun p i j hi hj hpi hpj => ?_, fun i p hp hgrants => ?_⟩
  · exact hexclusive.unique i j p (.inl (.inl ⟨hpi, hi.not_released⟩))
      (.inl (.inl ⟨hpj, hj.not_released⟩))
  · obtain ⟨hselects, hresult⟩ := hgrants
    obtain ⟨transId, hasks⟩ := asks_of_setPlayerResult hresult
    obtain ⟨q, hq, hselected⟩ := hallowed i _ hasks rfl
    obtain rfl := hselects.unique hq
    exact ⟨hselects.live, hselected.resolve_left hp⟩

/-- **No player has two workers**, as long as no worker looks whether a player is online while
another one is about to set it online: no two live workers have the same player; a worker that
answers a request for a player with `NetSuccess` has that player; and as long as it is live and has
the player, no other worker answers so. -/
theorem one_owner (sdl : SdlHost X) (config : ServerConfig)
    (challenges : ι → UInt32) (events : ι → List Event) {s : WorkerPool ι}
    (h : Runs (serveWorkers X) OneAtATime (workerPool sdl config challenges events initial) s) :
    OneOwner s.owns ∧ (∀ i p, p ≠ 0 → Grants s i p → Plays s i p) ∧
      ∀ t, Runs (serveWorkers X) OneAtATime s t → ∀ i j p, p ≠ 0 → Grants s i p →
        Plays t i p → Grants t j p → i = j := by
  obtain ⟨hone, hplays⟩ := owners sdl config challenges events h
  refine ⟨hone, hplays, fun t ht i j p hp _ hi hj => ?_⟩
  obtain ⟨hone', hplays'⟩ := owners sdl config challenges events (h.trans ht)
  have hj' := hplays' j p hp hj
  exact hone' p i j hi.1 hj'.1 hi.2 hj'.2

/-- The second client comes after the first one was told that it has the player. -/
theorem rivals_one_owner : ∃ s t, Runs (serveWorkers smallCrates) OneAtATime rivals s ∧
    Grants s 0 1003 ∧ Runs (serveWorkers smallCrates) OneAtATime s t ∧ Plays t 0 1003 ∧
    (t.owns 1).doing.Selects 1003 ∧
    setPlayerResult (t.clients 1).prog = some NetResultCode.netLoggedInElsewhere.code ∧
    OneOwner s.owns ∧ ¬ Grants t 1 1003 := by
  have hrun : ((rivals.replay (serveWorkers smallCrates) OneAtATime (steps [(81, 0)])).bind
      fun s => (s.replay (serveWorkers smallCrates) OneAtATime (steps [(2, 0), (15, 1)])).map
        fun t => ((decide ((s.owns 0).doing.Selects 1003), setPlayerResult (s.clients 0).prog),
          ((t.owns 0).doing.ctorIdx, (t.owns 0).worker.playerId),
          decide ((t.owns 1).doing.Selects 1003), setPlayerResult (t.clients 1).prog)) =
            some ((true, some NetResultCode.netSuccess.code), (Doing.idle.ctorIdx, some 1003),
              true, some NetResultCode.netLoggedInElsewhere.code) := by
    decide +kernel
  obtain ⟨s, hs, ht⟩ := Option.bind_eq_some_iff.1 hrun
  obtain ⟨t, ht, heq⟩ := Option.map_eq_some_iff.1 ht
  obtain ⟨hfirst, heq⟩ := Prod.mk.inj heq
  obtain ⟨hselects, hresult⟩ := Prod.mk.inj hfirst
  obtain ⟨hthen, heq⟩ := Prod.mk.inj heq
  obtain ⟨hidle, hplayer⟩ := Prod.mk.inj hthen
  obtain ⟨hasks, hrefused⟩ := Prod.mk.inj heq
  have hruns := Runs.start.replay hs
  have hmore := Runs.start.replay ht
  have hgrants : Grants s 0 1003 := ⟨of_decide_eq_true hselects, hresult⟩
  have hplays : Plays t 0 1003 := ⟨(Doing.eq_idle hidle).symm ▸ trivial, hplayer⟩
  obtain ⟨hone, -, hnever⟩ := one_owner _ _ _ _ hruns
  refine ⟨s, t, hruns, hgrants, hmore, hplays, of_decide_eq_true hasks, hrefused, hone, fun h => ?_⟩
  cases hnever t hmore 0 1 1003 (by decide) hgrants hplays h

/-- Both clients look before either of them has set the player online, and both are told that
they have it. -/
theorem rivals_race : ∃ s, Runs (serveWorkers smallCrates) (fun _ _ _ _ => True) rivals s ∧
    (∀ i, Grants s i 1003) ∧ ¬ OneOwner s.owns := by
  have hrun : ((rivals.replay (serveWorkers smallCrates) (fun _ _ _ _ => True)
      (steps [(79, 0), (15, 1), (2, 0), (2, 1)])).map fun s =>
        (fun i => (decide ((s.owns i).doing.Selects 1003), (s.owns i).worker.playerId,
          setPlayerResult (s.clients i).prog) : Fin 2 → _)) =
            some fun _ => (true, some 1003, some NetResultCode.netSuccess.code) := by
    decide +kernel
  obtain ⟨s, hs, heq⟩ := Option.map_eq_some_iff.1 hrun
  have hselects (i : Fin 2) : (s.owns i).doing.Selects 1003 :=
    of_decide_eq_true (Prod.mk.inj (congrFun heq i)).1
  have hplayer (i : Fin 2) := (Prod.mk.inj (Prod.mk.inj (congrFun heq i)).2).1
  refine ⟨s, Runs.start.replay hs,
    fun i => ⟨hselects i, (Prod.mk.inj (Prod.mk.inj (congrFun heq i)).2).2⟩, fun h => ?_⟩
  cases h 1003 0 1 (hselects 0).live (hselects 1).live (hplayer 0) (hplayer 1)

end Moulars.Auth
