import Mathlib.Logic.Relation
import Moulars.Auth.Login
import Moulars.Vault.Players

/-!
Logins under another spelling of the name.

The database finds an account whatever the case of the letters in its name; the hash of an
account with an e-mail name is made of the letters as they were when the account was created.
-/

namespace Moulars.Auth

open Lib.Wire Lib.Text Lib.Clients Hashes Vault

/-! ### Accounts stay -/

section Accounts

variable {X : Crates} {env : Env} {db db' : Backend}

lemma accounts_of_process {m : VaultMessage} {o : Outcome m.Reply}
    (h : processVaultMessage X env m db = some o) (hm : ∀ name, m ≠ .getAccount name) :
    o.db.accounts = db.accounts := by
  by_cases hplayer : ∃ a name shape, m = .createPlayer a name shape
  · obtain ⟨accountId, playerName, avatarShape, rfl⟩ := hplayer
    obtain rfl := Option.some.inj h
    simp only [createPlayer, DbMemory.playerExists, DbMemory.countPlayers, DbMemory.createNode,
      DbMemory.createPlayer]
    split <;> try rfl
    split <;> try rfl
    split <;> rename_i hnode <;> split at hnode <;> cases hnode <;> rfl
  · simp only [not_exists] at hplayer
    exact (processVaultMessage_tables h hm hplayer).1

lemma lookup_of_process {m : VaultMessage} {o : Outcome m.Reply}
    (h : processVaultMessage X env m db = some o) {key : String} {account : AccountInfo}
    (hkey : db.accounts.lookup key = some account) : o.db.accounts.lookup key = some account := by
  by_cases hm : ∃ name, m = .getAccount name
  · obtain ⟨name, rfl⟩ := hm
    obtain rfl := Option.some.inj h
    simp only [DbMemory.getAccount]
    split
    · exact hkey
    · rename_i hnone
      have hne : key ≠ X.unicase name := by
        rintro rfl
        rw [hkey] at hnone
        cases hnone
      exact (AList.lookup_insert_ne hne).trans hkey
  · rwa [accounts_of_process h fun name he => hm ⟨name, he⟩]

/-- The databases after any number of messages. -/
def Later (X : Crates) : Backend → Backend → Prop :=
  Relation.ReflTransGen fun db db' =>
    ∃ (env : Env) (m : VaultMessage) (o : Outcome m.Reply),
      processVaultMessage X env m db = some o ∧ o.db = db'

lemma Later.lookup (h : Later X db db') {key : String} {account : AccountInfo}
    (hkey : db.accounts.lookup key = some account) :
    db'.accounts.lookup key = some account := by
  induction h with
  | refl => exact hkey
  | tail _ hstep ih =>
    obtain ⟨env, m, o, hstep, rfl⟩ := hstep
    exact lookup_of_process hstep ih

/-- The account that a lookup of an unknown name creates. -/
def createdAccount (X : Crates) (env : Env) (accountName : String) : AccountInfo :=
  ⟨accountName, createPassHash X accountName "", env.newV4 0, AccountInfo.admin, 1,
    (X.sha1 (encodeUtf8 accountName.toList)).asHex⟩

/-- **The account is found under every spelling, as it was created under the first.** -/
lemma getAccount_of_later {s t : String} (hspell : X.unicase s = X.unicase t)
    (hnew : db.accounts.lookup (X.unicase t) = none)
    (hlater : Later X (DbMemory.getAccount X env t db).2 db') (env' : Env) :
    DbMemory.getAccount X env' s db' = (.ok (some (createdAccount X env t)), db') := by
  have hcreated : (DbMemory.getAccount X env t db).2.accounts.lookup (X.unicase t) =
      some (createdAccount X env t) := by
    simp only [DbMemory.getAccount, hnew]
    exact AList.lookup_insert _
  have hfound := hlater.lookup hcreated
  rw [← hspell] at hfound
  simp only [DbMemory.getAccount, hfound]

end Accounts

/-! ### Blank passwords -/

/-- What a client sends that uses the blank password. -/
def blankAnswer (X : Crates) (clientChallenge serverChallenge : UInt32) (accountName : String) :
    ShaDigest :=
  if useEmailAuth X accountName then
    hashPasswordChallenge clientChallenge serverChallenge (createPassHash X accountName "")
  else (X.sha1 []).endianSwap

/-- The spellings are of one kind, and e-mail names are spelled the same but for the last unit,
which the hash leaves out. -/
def SpelledAlike (X : Crates) (s t : String) : Prop :=
  useEmailAuth X s = useEmailAuth X t ∧
    (useEmailAuth X s = true → truncatedUtf16 s = truncatedUtf16 t)

/-- Two different messages with one digest. -/
def Collide (m m' : Bytes) : Prop := m ≠ m' ∧ ShaDigest.sha0 m = ShaDigest.sha0 m'

def challengeBytes (clientChallenge serverChallenge : UInt32) (passHash : ShaDigest) : Bytes :=
  le 4 clientChallenge.toNat ++ le 4 serverChallenge.toNat ++ passHash.data

/-- A coincidence of digests under which two spellings cannot be told from each other. -/
inductive Coincidence (X : Crates) (clientChallenge serverChallenge : UInt32) (s t : String) : Prop
  /-- of two e-mail names -/
  | names (hs : useEmailAuth X s = true) (ht : useEmailAuth X t = true)
      (h : Collide (truncatedUtf16 t) (truncatedUtf16 s))
  /-- of the answers to the challenge -/
  | answers (hs : useEmailAuth X s = true)
      (h : Collide (challengeBytes clientChallenge serverChallenge (createPassHash X t ""))
        (challengeBytes clientChallenge serverChallenge (createPassHash X s "")))
  /-- of a digest of one kind and a digest of the other -/
  | kinds (hst : useEmailAuth X s ≠ useEmailAuth X t)
      (h : createPassHash X t "" = createPassHash X s "")

namespace ShaDigest

lemma swapWords_swapWords : ∀ n (bs : Bytes), bs.length = 4 * n →
    Hashes.ShaDigest.swapWords (Hashes.ShaDigest.swapWords bs) = bs
  | 0, [], _ => rfl
  | n + 1, a :: b :: c :: d :: rest, h => by
    have hrest := swapWords_swapWords n rest (by simp only [List.length_cons] at h; omega)
    simp only [Hashes.ShaDigest.swapWords, hrest]

lemma endianSwap_endianSwap (d : Hashes.ShaDigest) : d.endianSwap.endianSwap = d := by
  obtain ⟨data, size⟩ := d
  simp only [Hashes.ShaDigest.endianSwap, swapWords_swapWords 5 data size]

end ShaDigest

section Check

variable {X : Crates} {clientChallenge serverChallenge : UInt32} {s t : String}

lemma createPassHash_email (h : useEmailAuth X s = true) :
    createPassHash X s "" = ShaDigest.sha0 (truncatedUtf16 s) := by
  rw [createPassHash, if_pos h]
  rfl

lemma createPassHash_plain (h : useEmailAuth X s = false) : createPassHash X s "" = X.sha1 [] := by
  rw [createPassHash, if_neg (by simp [h])]
  rfl

lemma challengeBytes_inj {d d' : ShaDigest}
    (h : challengeBytes clientChallenge serverChallenge d =
      challengeBytes clientChallenge serverChallenge d') : d = d' := by
  have hdata := List.append_cancel_left h
  obtain ⟨data, size⟩ := d
  obtain ⟨data', size'⟩ := d'
  obtain rfl : data = data' := hdata
  rfl

/-- The hashes of two spellings are the same exactly if the spellings are alike, but for
coincidences. -/
lemma createPassHash_eq_iff :
    createPassHash X t "" = createPassHash X s "" ↔ SpelledAlike X s t ∨
      (useEmailAuth X s = true ∧ useEmailAuth X t = true ∧
        Collide (truncatedUtf16 t) (truncatedUtf16 s)) ∨
      (useEmailAuth X s ≠ useEmailAuth X t ∧
        createPassHash X t "" = createPassHash X s "") := by
  by_cases hkind : useEmailAuth X s = useEmailAuth X t
  · cases hs : useEmailAuth X s with
    | false =>
      have ht : useEmailAuth X t = false := hkind.symm.trans hs
      simp [createPassHash_plain hs, createPassHash_plain ht, SpelledAlike, hs, ht]
    | true =>
      have ht : useEmailAuth X t = true := hkind.symm.trans hs
      rw [createPassHash_email hs, createPassHash_email ht]
      simp only [SpelledAlike, Collide, hs, ht, true_and, ne_eq, not_true_eq_false, false_and,
        or_false, forall_const]
      constructor
      · intro h
        by_cases hname : truncatedUtf16 s = truncatedUtf16 t
        · exact .inl hname
        · exact .inr ⟨fun he => hname he.symm, h⟩
      · rintro (h | h)
        · rw [h]
        · exact h.2
  · constructor
    · exact fun h => .inr (.inr ⟨hkind, h⟩)
    · rintro (⟨hsame, -⟩ | ⟨hs, ht, -⟩ | ⟨-, h⟩)
      · exact absurd hsame hkind
      · exact absurd (hs.trans ht.symm) hkind
      · exact h

lemma checkPassword_blank {account : AccountInfo} (h : account.passHash = createPassHash X t "") :
    checkPassword X s clientChallenge serverChallenge
        (blankAnswer X clientChallenge serverChallenge s) account = true ↔
      SpelledAlike X s t ∨ Coincidence X clientChallenge serverChallenge s t := by
  rw [checkPassword, blankAnswer, h]
  cases hs : useEmailAuth X s with
  | true =>
    simp only [if_true, decide_eq_true_eq]
    constructor
    · intro hanswer
      by_cases heq : createPassHash X t "" = createPassHash X s ""
      · rcases createPassHash_eq_iff.1 heq with hsame | ⟨-, ht, hnames⟩ | ⟨hkind, -⟩
        · exact .inl hsame
        · exact .inr (.names hs ht hnames)
        · exact .inr (.kinds hkind heq)
      · exact .inr (.answers hs ⟨fun hbytes => heq (challengeBytes_inj hbytes), hanswer⟩)
    · rintro (hsame | ⟨-, ht, hnames⟩ | ⟨-, hanswers⟩ | ⟨hkind, heq⟩)
      · rw [createPassHash_eq_iff.2 (.inl hsame)]
      · rw [createPassHash_eq_iff.2 (.inr (.inl ⟨hs, ht, hnames⟩))]
      · exact hanswers.2
      · rw [heq]
  | false =>
    simp only [Bool.false_eq_true, if_false, decide_eq_true_eq,
      ShaDigest.endianSwap_endianSwap, ← createPassHash_plain hs]
    constructor
    · intro heq
      rcases createPassHash_eq_iff.1 heq with hsame | ⟨hemail, -⟩ | ⟨hkind, -⟩
      · exact .inl hsame
      · rw [hs] at hemail
        cases hemail
      · exact .inr (.kinds hkind heq)
    · rintro (hsame | ⟨hemail, -, -⟩ | ⟨hemail, -⟩ | ⟨hkind, heq⟩)
      · exact createPassHash_eq_iff.2 (.inl hsame)
      · rw [hs] at hemail
        cases hemail
      · rw [hs] at hemail
        cases hemail
      · exact heq

end Check

/-! ### Logins -/

/-- A worker whose vault has this database, which has a key, and whose client is there. -/
def servedFrom (X : Crates) (env : Env) (db : Backend) (ntdKey : List UInt32) : Surroundings where
  vault m := match processVaultMessage X env m db with
    | some o => o.reply
    | none => .error .netInternalError
  ntdKey := some ntdKey
  fromDir _ _ := none
  openFile _ := none
  newV4 := .nil
  sends _ := true

/-- What the final reply to a login request reports. -/
def loginReport (X : Crates) (config : ServerConfig) (env : Surroundings)
    (worker : AuthServerWorker) (transId clientChallenge : UInt32) (accountName : String)
    (passHash : ShaDigest) : Option Int32 :=
  ((doLoginRequest config X transId clientChallenge accountName passHash).exec env.handle
    (.start worker)).2.sent.getLast?.bind AuthToCli.loginResult

lemma loginReport_iff {X : Crates} (config : ServerConfig) {env : Surroundings}
    (worker : AuthServerWorker) (transId clientChallenge : UInt32) {accountName : String}
    (passHash : ShaDigest) {account : AccountInfo} {ntdKey : List UInt32}
    (haccount : env.vault (.getAccount accountName) = .ok (some account))
    (hbanned : account.isBanned = false) (hallowed : account.canLoginRestricted = true)
    (hkey : env.ntdKey = some ntdKey) (hplayers : PlayersArrive env account.accountId) :
    loginReport X config env worker transId clientChallenge accountName passHash =
        some NetResultCode.netSuccess.code ↔
      checkPassword X accountName clientChallenge worker.serverChallenge passHash account =
        true := by
  rw [loginReport, doLoginRequest, Surroundings.exec_vault_bind, haccount]
  change (Prog.exec env.handle
    (if !checkPassword X accountName clientChallenge worker.serverChallenge passHash account
      then _ else _) (.start worker)).2.sent.getLast?.bind _ = _ ↔ _
  cases hpass : checkPassword X accountName clientChallenge worker.serverChallenge passHash account
  with
  | false => exact iff_of_false (fun h => absurd (Option.some.inj h) (by decide)) Bool.false_ne_true
  | true =>
    refine iff_of_true ?_ rfl
    simp only [Bool.not_true, hbanned, hallowed, Bool.and_false, Bool.false_eq_true, if_false]
    obtain ⟨sent, hexec, harrive, -⟩ := exec_finishLogin worker transId account hkey
    obtain ⟨infos, reply, rfl, -, hreply⟩ := harrive hplayers
    rw [hexec, List.getLast?_concat]
    exact hreply

/-- **A blank password is accepted under another spelling** exactly if the spellings are alike,
or digests coincide. -/
theorem blankAnswer_accepted_iff {X : Crates} {s t : String} {db db' : Backend} {env : Env}
    (hspell : X.unicase s = X.unicase t) (hnew : db.accounts.lookup (X.unicase t) = none)
    (hlater : Later X (DbMemory.getAccount X env t db).2 db') (env' : Env)
    (config : ServerConfig) (worker : AuthServerWorker) (ntdKey : List UInt32)
    (transId clientChallenge : UInt32) :
    loginReport X config (servedFrom X env' db' ntdKey) worker transId clientChallenge s
        (blankAnswer X clientChallenge worker.serverChallenge s) =
          some NetResultCode.netSuccess.code ↔
      SpelledAlike X s t ∨ Coincidence X clientChallenge worker.serverChallenge s t := by
  have hget := getAccount_of_later hspell hnew hlater env'
  have haccount : (servedFrom X env' db' ntdKey).vault (.getAccount s) =
      .ok (some (createdAccount X env t)) := congrArg Prod.fst hget
  have hplayers : PlayersArrive (servedFrom X env' db' ntdKey)
      (createdAccount X env t).accountId := fun _ _ => rfl
  have hbanned : (createdAccount X env t).isBanned = false := by
    show (AccountInfo.admin &&& AccountInfo.banned != 0) = false
    decide
  have hallowed : (createdAccount X env t).canLoginRestricted = true := by
    show (AccountInfo.admin &&& (AccountInfo.admin ||| AccountInfo.betaTester) != 0) = true
    decide
  rw [loginReport_iff config worker transId clientChallenge _ haccount hbanned hallowed rfl
    hplayers]
  exact checkPassword_blank rfl

/-- Names are compared without case, and all of them are e-mail names. -/
def mailCrates : Crates :=
  ⟨fun s => String.ofList (s.toList.map Char.toLower), ShaDigest.sha0, fun _ => some "example"⟩

/-- The database after the account was created as `Yeesha@example.com`. -/
def mailBackend : Backend :=
  (DbMemory.getAccount mailCrates (Env.plain 0) "Yeesha@example.com" Backend.new).2

/-- With only the last letter spelled in another way, the login is accepted. -/
theorem lastLetter_accepted :
    loginReport mailCrates ⟨0, [], true⟩ (servedFrom mailCrates (Env.plain 0) mailBackend [])
        ⟨5, none, none⟩ 1 9 "Yeesha@example.coM"
        (blankAnswer mailCrates 9 5 "Yeesha@example.coM") = some NetResultCode.netSuccess.code :=
  (blankAnswer_accepted_iff (X := mailCrates) (t := "Yeesha@example.com") (by decide) rfl .refl
    (Env.plain 0) ⟨0, [], true⟩ ⟨5, none, none⟩ [] 1 9).2 (.inl ⟨rfl, fun _ => by decide⟩)

/-- Under another spelling it is refused. -/
theorem otherSpelling_refused :
    mailCrates.unicase "yeesha@example.com" = mailCrates.unicase "Yeesha@example.com" ∧
      loginReport mailCrates ⟨0, [], true⟩ (servedFrom mailCrates (Env.plain 0) mailBackend [])
        ⟨5, none, none⟩ 1 9 "yeesha@example.com"
        (blankAnswer mailCrates 9 5 "yeesha@example.com") =
          some NetResultCode.netAuthenticationFailed.code := by
  decide +kernel

end Moulars.Auth
