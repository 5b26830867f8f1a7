import Moulars.Vault.NodeIds

/-!
Players: no two have the same name whatever their accounts, no account has more than five, and
every player's id is the id of a node.
-/

namespace Moulars.Vault

open Lib.Hash Hashes

variable {X : Crates} {env : Env}

/-- The players of all accounts. -/
def Backend.roster (db : Backend) : List PlayerInfo := db.players.values.flatten

/-- A player may be added to an account: the name is new and the account has room. -/
structure Backend.Admits (X : Crates) (db : Backend) (accountId : Uuid) (player : PlayerInfo) :
    Prop where
  name : ∀ p ∈ db.roster, X.unicase player.playerName ≠ X.unicase p.playerName
  room : ((db.players.lookup accountId).getD []).length < maxPlayers

lemma playerExists_false {name : String} {db : Backend}
    (h : db.players.values.any (fun l => l.any fun p => X.unicase p.playerName == X.unicase name) =
      false) : ∀ p ∈ db.roster, X.unicase name ≠ X.unicase p.playerName := by
  intro p hp heq
  obtain ⟨l, hl, hpl⟩ := List.mem_flatten.1 hp
  simp only [List.any_eq_false, beq_iff_eq, Bool.not_eq_true] at h
  exact h l hl p hpl heq.symm

/-- The database with the player's node and its entry in the account's list. -/
def Backend.enrol (db : Backend) (accountId : Uuid) (player : PlayerInfo) : Backend :=
  { (DbMemory.createNode
      (VaultPlayerNode.new accountId player.playerName player.avatarShape player.explorer) db).2
      with
    players :=
      db.players.insert accountId ((db.players.lookup accountId).getD [] ++ [player]) }

/-- While the next id is free, a creation fails and changes nothing or enrols the player. -/
lemma createPlayer_cases {db : Backend} (hfree : db.vault.lookup db.nodeIndex = none) (a : Uuid)
    (name shape : String) :
    (∃ err, createPlayer X a name shape db = (.error err, db)) ∨
      db.Admits X a ⟨db.nodeIndex, name, shape, 1⟩ ∧
      createPlayer X a name shape db =
        (.ok ⟨db.nodeIndex, name, shape, 1⟩, db.enrol a ⟨db.nodeIndex, name, shape, 1⟩) := by
  simp only [createPlayer, DbMemory.playerExists, DbMemory.countPlayers]
  cases hname : db.players.values.any fun l =>
      l.any fun p => X.unicase p.playerName == X.unicase name with
  | true => exact .inl ⟨_, rfl⟩
  | false =>
    by_cases hcount : ((db.players.lookup a).getD []).length ≥ maxPlayers
    · exact .inl ⟨.netMaxPlayersOnAcct, by simp only [hcount, if_true]⟩
    · refine .inr ⟨⟨playerExists_false hname, not_le.1 hcount⟩, ?_⟩
      simp [hcount, DbMemory.createNode, DbMemory.createPlayer, Backend.enrol, hfree]

lemma processVaultMessage_tables {m : VaultMessage} {db : Backend} {o : Outcome m.Reply}
    (h : processVaultMessage X env m db = some o) (haccount : ∀ name, m ≠ .getAccount name)
    (hplayer : ∀ a name shape, m ≠ .createPlayer a name shape) :
    o.db.accounts = db.accounts ∧ o.db.players = db.players := by
  cases m with
  | getAccount accountName => exact absurd rfl (haccount accountName)
  | createPlayer a name shape => exact absurd rfl (hplayer a name shape)
  | addGameServer gameServer =>
    obtain rfl := Option.some.inj h
    simp only [DbMemory.addGameServer]
    split <;> exact ⟨rfl, rfl⟩
  | createNode node =>
    obtain rfl := Option.some.inj h
    simp only [createNode_snd, and_self]
  | updateNode node =>
    obtain rfl := Option.some.inj h
    simp only [updateNode, DbMemory.updateNode]
    split <;> rename_i hu <;> split at hu <;> cases hu <;> exact ⟨rfl, rfl⟩
  | getPlayerInfoNode playerId =>
    obtain ⟨reply, -, rfl⟩ := Option.map_eq_some_iff.mp h
    exact ⟨rfl, rfl⟩
  | fetchRefs parent recursive =>
    obtain ⟨refs, -, rfl⟩ := Option.map_eq_some_iff.mp h
    exact ⟨rfl, rfl⟩
  | _ =>
    obtain rfl := Option.some.inj h
    exact ⟨rfl, rfl⟩

lemma processVaultMessage_players {m : VaultMessage} {db : Backend} {o : Outcome m.Reply}
    (h : processVaultMessage X env m db = some o)
    (hm : ∀ a name shape, m ≠ .createPlayer a name shape) : o.db.players = db.players := by
  by_cases haccount : ∃ name, m = .getAccount name
  · obtain ⟨name, rfl⟩ := haccount
    obtain rfl := Option.some.inj h
    simp only [DbMemory.getAccount]
    split <;> rfl
  · exact (processVaultMessage_tables h (not_exists.1 haccount) hm).2

/-! ### The invariant -/

structure Enrolled (X : Crates) (l : Log) : Prop where
  names : l.db.roster.Pairwise fun p q => X.unicase p.playerName ≠ X.unicase q.playerName
  limit : ∀ a, ((l.db.players.lookup a).getD []).length ≤ maxPlayers
  distinct : l.db.roster.Pairwise fun p q => p.playerId ≠ q.playerId
  listed : ∀ p ∈ l.db.roster, p.playerId ∈ l.ids

namespace Enrolled

variable {l : Log}

lemma init : Enrolled X Log.initial := ⟨.nil, fun _ => Nat.zero_le _, .nil, nofun⟩

lemma keep (h : Enrolled X l) {l' : Log} (hp : l'.db.players = l.db.players)
    (hids : ∀ k ∈ l.ids, k ∈ l'.ids) : Enrolled X l' := by
  have hr : l'.db.roster = l.db.roster := by rw [Backend.roster, Backend.roster, hp]
  exact ⟨hr ▸ h.names, hp ▸ h.limit, hr ▸ h.distinct, fun p hm => hids _ (h.listed p (hr ▸ hm))⟩

lemma add (h : Enrolled X l) {l' : Log} {a : Uuid} {player : PlayerInfo}
    (hp : l'.db.players = l.db.players.insert a ((l.db.players.lookup a).getD [] ++ [player]))
    (hfits : l.db.Admits X a player) (hnew : player.playerId ∉ l.ids)
    (hids : l'.ids = player.playerId :: l.ids) : Enrolled X l' := by
  have hperm : l'.db.roster.Perm (player :: l.db.roster) := by
    rw [Backend.roster, hp]
    exact HashMap.values_push_perm ..
  refine ⟨?_, fun b => ?_, ?_, fun p hm => ?_⟩
  · exact (hperm.pairwise_iff fun h => h.symm).2 (.cons hfits.name h.names)
  · rw [hp]
    by_cases hb : b = a
    · subst hb
      rw [AList.lookup_insert, Option.getD_some, List.length_append]
      exact hfits.room
    · rw [AList.lookup_insert_ne hb]
      exact h.limit b
  · refine (hperm.pairwise_iff fun h => h.symm).2 (.cons (fun q hq heq => ?_) h.distinct)
    exact hnew (heq ▸ h.listed q hq)
  · rw [hids]
    rcases List.mem_cons.1 (hperm.mem_iff.1 hm) with rfl | hm
    · exact List.mem_cons_self
    · exact List.mem_cons_of_mem _ (h.listed p hm)

end Enrolled

lemma Reach.enrolled {l : Log} (h : Reach X l) (hc : l.calls < 2 ^ 32 - 1003) : Enrolled X l := by
  induction h with
  | init => exact .init
  | @step l env m o hl ho ih =>
    have hc' : l.calls < 2 ^ 32 - 1003 := lt_of_le_of_lt (Nat.le_add_right _ _) hc
    have hs := hl.sound hc'
    by_cases hm : ∃ a name shape, m = .createPlayer a name shape
    · obtain ⟨a, name, shape, rfl⟩ := hm
      obtain rfl := Option.some.inj ho
      rcases createPlayer_cases (X := X) hs.lookup_next a name shape with ⟨err, he⟩ | ⟨hfits, he⟩
      · exact (ih hc').keep (by simp only [Log.next, he]) fun k hk => List.mem_append_right _ hk
      · refine (ih hc').add ?_ hfits ?_ ?_
        · simp only [Log.next, he]
          rfl
        · exact fun hm => hs.next_not_mem ((hs.mem _).1 hm)
        · simp only [Log.next, he]
          rfl
    · refine (ih hc').keep (processVaultMessage_players ho fun a name shape he => ?_)
        fun k hk => List.mem_append_right _ hk
      exact hm ⟨a, name, shape, he⟩

/-- **Players are unique**: in every state reached with fewer than `2 ^ 32 - 1003` node
creations, the names of all players differ regardless of case, no account has more than five
players, and the players' ids are distinct ids of nodes; and a creation that replies with an
error changes nothing. -/
theorem players_unique {l : Log} (h : Reach X l) (hc : l.calls < 2 ^ 32 - 1003) :
    (l.db.roster.Pairwise fun p q => X.unicase p.playerName ≠ X.unicase q.playerName) ∧
    (∀ accountId, ((l.db.players.lookup accountId).getD []).length ≤ maxPlayers) ∧
    (l.db.roster.Pairwise fun p q => p.playerId ≠ q.playerId) ∧
    (∀ p ∈ l.db.roster, (l.db.vault.lookup p.playerId).isSome) ∧
    ∀ env accountId name shape o err,
      processVaultMessage X env (.createPlayer accountId name shape) l.db = some o →
      o.reply = .error err → o.db = l.db := by
  have hs := h.sound hc
  obtain ⟨hnames, hlimit, hdistinct, hlisted⟩ := h.enrolled hc
  refine ⟨hnames, hlimit, hdistinct, fun p hp => ?_, ?_⟩
  · exact AList.lookup_isSome.2 ((hs.mem _).1 (hlisted p hp))
  · intro env a name shape o err ho herr
    obtain rfl := Option.some.inj ho
    rcases createPlayer_cases (X := X) hs.lookup_next a name shape with ⟨err', he⟩ | ⟨-, he⟩
    · simp only [he]
    · simp only [he] at herr
      cases herr

def gehnLog : Log :=
  Log.initial.next Crates.plain (.createPlayer Uuid.nil "Gehn" "male")
    ⟨(createPlayer Crates.plain Uuid.nil "Gehn" "male" initial).1,
      (createPlayer Crates.plain Uuid.nil "Gehn" "male" initial).2, []⟩

theorem players_unique_after_gehn :
    gehnLog.db.roster.map PlayerInfo.playerId = [1003] ∧
    ∀ o err, processVaultMessage Crates.plain (Env.plain 0) (.createPlayer Uuid.nil "Gehn" "female")
      gehnLog.db = some o → o.reply = .error err → o.db = gehnLog.db :=
  ⟨by decide +kernel, (players_unique
    (@Reach.step _ _ (Env.plain 0) (.createPlayer Uuid.nil "Gehn" "male") _ Reach.init rfl)
    (by decide +kernel)).2.2.2.2 _ _ _ _⟩

end Moulars.Vault
