import Moulars.Auth.Connection

/-!
Logins and their replies.

A login that fails should leave the worker as it was. The worker assigns its account before it
fetches the players of the account, so that a failure there leaves it logged in with an error
reply sent, or with none.
-/

namespace Moulars.Auth

open Lib.Wire Lib.Clients Hashes Vault

def AuthToCli.loginResult : AuthToCli → Option Int32
  | .acctLoginReply _ result .. => some result
  | _ => none

lemma code_eq_netSuccess {err : NetResultCode}
    (h : err.code = NetResultCode.netSuccess.code) : err = .netSuccess := by
  cases err <;> first | rfl | exact absurd h (by decide)

/-- A login as it is meant to be: the account is assigned exactly if the final reply reports
success, and an error reply goes with a worker as it was. -/
structure LoginAtomic (env : Surroundings) (accountName : String) (worker : AuthServerWorker)
    (s : Connection) : Prop where
  sets_iff : (∃ account, env.vault (.getAccount accountName) = .ok (some account) ∧
      s.accountIds = [account.accountId]) ↔
    s.sent.getLast?.bind AuthToCli.loginResult = some NetResultCode.netSuccess.code
  kept : ∀ reply ∈ s.sent, ∀ code, reply.loginResult = some code →
    code ≠ NetResultCode.netSuccess.code →
      s.accountIds = [] ∧ s.worker.accountId = worker.accountId

/-- The account passes all the checks, and there is a key. -/
def Admitted (X : Crates) (config : ServerConfig) (env : Surroundings) (worker : AuthServerWorker)
    (clientChallenge : UInt32) (accountName : String) (passHash : ShaDigest)
    (account : AccountInfo) : Prop :=
  checkPassword X accountName clientChallenge worker.serverChallenge passHash account = true ∧
    account.isBanned = false ∧
    (config.restrictLogins = true → account.canLoginRestricted = true) ∧ env.ntdKey ≠ none

/-- The players of an account can be fetched and sent. -/
def PlayersArrive (env : Surroundings) (accountId : Uuid) : Prop :=
  match env.vault (.getPlayers accountId) with
  | .ok players => ∀ n < players.length, env.sends n = true
  | .error err => err = .netSuccess

section Login

variable {env : Surroundings} {accountName : String} {worker : AuthServerWorker} {transId : UInt32}

lemma loginAtomic_refused {err : NetResultCode} (h : err ≠ .netSuccess) :
    LoginAtomic env accountName worker
      ((Connection.start worker).send (.loginError transId err)) where
  sets_iff := by
    refine ⟨fun ⟨account, _, hids⟩ => (nomatch hids), fun hresult => ?_⟩
    exact absurd (code_eq_netSuccess (Option.some.inj hresult)) h
  kept _ _ _ _ _ := ⟨rfl, rfl⟩

def Connection.loggedIn (worker : AuthServerWorker) (accountId : Uuid) : Connection :=
  ⟨{ worker with accountId := some accountId }, [accountId], []⟩

lemma exec_sendPlayers (env : Surroundings) (transId : UInt32) (players : List PlayerInfo)
    (s : Connection) :
    ∃ infos, (∀ reply ∈ infos, AuthToCli.loginResult reply = none) ∧
      (sendPlayers transId players).exec env.handle s =
        (.ok (if ∀ n < players.length, env.sends (s.sent.length + n) = true
          then some .netSuccess else none), { s with sent := s.sent ++ infos }) := by
  induction players generalizing s with
  | nil =>
    refine ⟨[], nofun, ?_⟩
    rw [if_pos nofun, List.append_nil]
    rfl
  | cons player players ih =>
    let info : AuthToCli := .acctPlayerInfo transId player.playerId player.playerName
      player.avatarShape player.explorer
    rw [sendPlayers, Surroundings.exec_sendMessage_bind]
    cases hsend : env.sends s.sent.length with
    | false =>
      have hnot : ¬ ∀ n < (player :: players).length, env.sends (s.sent.length + n) = true := by
        intro hall
        have hfirst := hall 0 (by simp)
        rw [Nat.add_zero, hsend] at hfirst
        cases hfirst
      refine ⟨[info], by simp [info, AuthToCli.loginResult], ?_⟩
      rw [if_neg hnot]
      rfl
    | true =>
      obtain ⟨infos, hinfos, hexec⟩ := ih (s.send info)
      refine ⟨info :: infos, ?_, ?_⟩
      · intro reply hreply
        rcases List.mem_cons.1 hreply with rfl | hreply
        · rfl
        · exact hinfos reply hreply
      · rw [if_pos rfl, hexec]
        have hall : (∀ n < players.length, env.sends ((s.send info).sent.length + n) = true) ↔
            ∀ n < (player :: players).length, env.sends (s.sent.length + n) = true := by
          rw [List.length_cons, Nat.forall_lt_succ_left, Nat.add_zero, hsend]
          simp [Connection.send, Nat.add_comm, Nat.add_left_comm]
        simp only [hall]
        simp only [Connection.send, List.append_assoc, List.singleton_append]

section Assigned

variable {account : AccountInfo} {s : Connection}
  (haccount : env.vault (.getAccount accountName) = .ok (some account))
  (hids : s.accountIds = [account.accountId])

include haccount hids

lemma loginAtomic_succeeded {infos : List AuthToCli} {reply : AuthToCli}
    (hinfos : ∀ info ∈ infos, AuthToCli.loginResult info = none)
    (hreply : reply.loginResult = some NetResultCode.netSuccess.code)
    (hsent : s.sent = infos ++ [reply]) : LoginAtomic env accountName worker s where
  sets_iff := by
    refine iff_of_true ⟨account, haccount, hids⟩ ?_
    rw [hsent, List.getLast?_concat]
    exact hreply
  kept other hother code hcode hne := by
    rw [hsent] at hother
    rcases List.mem_append.1 hother with hinfo | hlast
    · rw [hinfos other hinfo] at hcode
      cases hcode
    · rw [List.mem_singleton.1 hlast, hreply] at hcode
      exact absurd (Option.some.inj hcode).symm hne

lemma not_loginAtomic
    (hresult : s.sent.getLast?.bind AuthToCli.loginResult ≠ some NetResultCode.netSuccess.code) :
    ¬ LoginAtomic env accountName worker s :=
  fun h => hresult (h.sets_iff.1 ⟨account, haccount, hids⟩)

end Assigned

/-- What is sent once the account is assigned: the players and then the reply, which reports
success exactly if they have arrived. -/
lemma exec_finishLogin (worker : AuthServerWorker) (transId : UInt32) (account : AccountInfo)
    {ntdKey : List UInt32} (hkey : env.ntdKey = some ntdKey) :
    ∃ sent, ((finishLogin transId account).exec env.handle (.start worker)).2 =
        { Connection.loggedIn worker account.accountId with sent } ∧
      (PlayersArrive env account.accountId → ∃ infos reply, sent = infos ++ [reply] ∧
        (∀ info ∈ infos, AuthToCli.loginResult info = none) ∧
        reply.loginResult = some NetResultCode.netSuccess.code) ∧
      (¬ PlayersArrive env account.accountId →
        sent.getLast?.bind AuthToCli.loginResult ≠ some NetResultCode.netSuccess.code) := by
  rw [finishLogin, Surroundings.exec_own_bind, Surroundings.ownReply, hkey]
  change ∃ sent, ((fetchAccountPlayers transId account.accountId >>= _).exec env.handle
      (.loggedIn worker account.accountId)).2 = _ ∧ _
  rw [PlayersArrive]
  cases hplayers : env.vault (.getPlayers account.accountId) with
  | error err =>
    have hfetch : (fetchAccountPlayers transId account.accountId).exec env.handle
        (.loggedIn worker account.accountId) =
          (.ok (some err), .loggedIn worker account.accountId) := by
      rw [fetchAccountPlayers, Surroundings.exec_vault_bind, hplayers]
      rfl
    rw [Prog.exec_bind_ok hfetch]
    by_cases herr : err = .netSuccess
    · subst herr
      exact ⟨_, rfl, fun _ => ⟨[], _, rfl, nofun, rfl⟩, fun hne => absurd rfl hne⟩
    · simp only [Surroundings.exec_sendMessage]
      refine ⟨[.loginError transId err], rfl, fun he => absurd he herr, fun _ hresult => herr ?_⟩
      exact code_eq_netSuccess (Option.some.inj hresult)
  | ok players =>
    obtain ⟨infos, hinfos, hsend⟩ := exec_sendPlayers env transId players
      (.loggedIn worker account.accountId)
    have hfetch : (fetchAccountPlayers transId account.accountId).exec env.handle
        (.loggedIn worker account.accountId) =
          (sendPlayers transId players).exec env.handle (.loggedIn worker account.accountId) := by
      rw [fetchAccountPlayers, Surroundings.exec_vault_bind, hplayers]
    rw [Prog.exec_bind_ok (hfetch.trans hsend)]
    simp only [Connection.loggedIn, List.length_nil, Nat.zero_add, List.nil_append]
    by_cases hall : ∀ n < players.length, env.sends n = true
    · rw [if_pos hall]
      exact ⟨_, rfl, fun _ => ⟨infos, _, rfl, hinfos, rfl⟩, fun hnot => absurd hall hnot⟩
    · rw [if_neg hall]
      refine ⟨infos, rfl, fun h => absurd h hall, fun _ hresult => ?_⟩
      -- the last message is that of a player, if there is one
      obtain ⟨reply, hreply, hcode⟩ := Option.bind_eq_some_iff.1 hresult
      rw [hinfos reply (List.mem_of_getLast? hreply)] at hcode
      cases hcode

/-- **Once the account is assigned, the players have to arrive.** -/
lemma loginAtomic_finishLogin {account : AccountInfo} {ntdKey : List UInt32}
    (haccount : env.vault (.getAccount accountName) = .ok (some account))
    (hkey : env.ntdKey = some ntdKey) :
    LoginAtomic env accountName worker
        ((finishLogin transId account).exec env.handle (.start worker)).2 ↔
      PlayersArrive env account.accountId := by
  obtain ⟨sent, hexec, harrive, hlost⟩ := exec_finishLogin worker transId account hkey
  rw [hexec]
  by_cases hplayers : PlayersArrive env account.accountId
  · obtain ⟨infos, reply, hsent, hinfos, hreply⟩ := harrive hplayers
    exact iff_of_true (loginAtomic_succeeded haccount rfl hinfos hreply hsent) hplayers
  · exact iff_of_false (not_loginAtomic haccount rfl (hlost hplayers)) hplayers

/-- When a login is as it is meant to be: the lookup of the account does not fail with the code
for success, and if the account is admitted, its players arrive. -/
def LoginSafe (X : Crates) (config : ServerConfig) (env : Surroundings) (worker : AuthServerWorker)
    (clientChallenge : UInt32) (accountName : String) (passHash : ShaDigest) : Prop :=
  match env.vault (.getAccount accountName) with
  | .ok (some account) =>
    Admitted X config env worker clientChallenge accountName passHash account →
      PlayersArrive env account.accountId
  | .ok none => True
  | .error err => err ≠ .netSuccess

end Login

/-- **A login leaves the worker as its reply says** exactly if the lookup of an admitted account
is followed by its players. -/
theorem loginAtomic_iff (X : Crates) (config : ServerConfig) (env : Surroundings)
    (worker : AuthServerWorker) (transId clientChallenge : UInt32) (accountName : String)
    (passHash : ShaDigest) :
    LoginAtomic env accountName worker
        ((doLoginRequest config X transId clientChallenge accountName passHash).exec env.handle
          (.start worker)).2 ↔
      LoginSafe X config env worker clientChallenge accountName passHash := by
  rw [doLoginRequest, Surroundings.exec_vault_bind, LoginSafe]
  cases haccount : env.vault (.getAccount accountName) with
  | error err =>
    by_cases herr : err = .netSuccess
    · subst herr
      refine iff_of_false (fun h => ?_) (fun h => h rfl)
      obtain ⟨account, hfound, -⟩ := h.sets_iff.2 rfl
      rw [haccount] at hfound
      cases hfound
    · exact iff_of_true (loginAtomic_refused herr) herr
  | ok found =>
    cases found with
    | none => exact iff_of_true (loginAtomic_refused (by decide)) trivial
    | some account =>
      have hrefused {err : NetResultCode} (herr : err ≠ .netSuccess) :
          LoginAtomic env accountName worker
            ((sendMessage (.loginError transId err)).exec env.handle (.start worker)).2 :=
        loginAtomic_refused herr
      change LoginAtomic env accountName worker (Prog.exec env.handle
        (if !checkPassword X accountName clientChallenge worker.serverChallenge passHash account
          then _ else _) (.start worker)).2 ↔ _
      split
      · rename_i hpass
        refine iff_of_true (hrefused (by decide)) fun h => ?_
        rw [h.1] at hpass
        cases hpass
      · split
        · rename_i hbanned
          refine iff_of_true (hrefused (by decide)) fun h => ?_
          rw [h.2.1] at hbanned
          cases hbanned
        · split
          · rename_i hrestricted
            refine iff_of_true (hrefused (by decide)) fun h => ?_
            rw [Bool.and_eq_true] at hrestricted
            rw [h.2.2.1 hrestricted.1] at hrestricted
            cases hrestricted.2
          · rename_i hpass hbanned hrestricted
            cases hkey : env.ntdKey with
            | none =>
              refine iff_of_true ?_ fun h => absurd hkey h.2.2.2
              rw [finishLogin, Surroundings.exec_own_bind, Surroundings.ownReply, hkey]
              exact hrefused (by decide)
            | some ntdKey =>
              rw [loginAtomic_finishLogin haccount hkey]
              refine ⟨fun h _ => h, fun h => h ⟨?_, ?_, ?_, ?_⟩⟩
              · simpa using hpass
              · simpa using hbanned
              · simpa using hrestricted
              · simp [hkey]

def zeroAccount : AccountInfo := ⟨"Atrus", .zero, .nil, 0, 1, ""⟩

/-- The vault finds the account, but not its players. -/
def playersLost : Surroundings where
  vault
    | .getAccount _ => .ok (some zeroAccount)
    | _ => .error .netInternalError
  ntdKey := some [1, 2, 3, 4]
  fromDir _ _ := none
  openFile _ := none
  newV4 := .nil
  sends _ := true

/-- The client is told that the login has failed, and the worker is logged in. -/
theorem failedLogin_keeps_account :
    let s := ((doLoginRequest ⟨0, [], false⟩ Crates.plain 7 0 "Atrus" zeroAccount.passHash).exec
      playersLost.handle (.start ⟨0, none, none⟩)).2
    s.sent = [.loginError 7 .netInternalError] ∧ s.worker.accountId = some zeroAccount.accountId ∧
      ¬ LoginAtomic playersLost "Atrus" ⟨0, none, none⟩ s := by
  refine ⟨rfl, rfl, fun h => ?_⟩
  cases (h.kept _ (List.mem_singleton_self _) _ rfl (by decide)).1

end Moulars.Auth
