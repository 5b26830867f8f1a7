import Moulars.Lib.Base64
import Moulars.Net.Handshake
import Moulars.Net.Sending

/-!
The keys that are generated for a server and its clients, and the key both ends of a connection get
from them.

A client knows `n` and `x = g ^ k` modulo `n`, and the server knows `n` and `k`. The client here
does what the protocol asks of it.
-/

namespace Moulars.Net.Handshake

open Lib Lib.Wire Lib.BigUint Net.Crypt CryptConnectHeader

/-! ### Published keys -/

def cryptBaseGateKeeper : ℕ := 4

/-- The texts of `Server.*.N` and `Server.*.X`. -/
structure ClientKeys where
  n : String
  x : String

/-- What `/client_keys` and `--show-keys` make of the configured keys of a service. -/
def clientKeys (keyG keyK keyN : ℕ) : Except Fault ClientKeys :=
  if keyN = 0 then .error (.panic "attempt to calculate with zero modulus!")
  else .ok ⟨Base64.encode (toBytesBe keyN), Base64.encode (toBytesBe (modpow keyG keyK keyN))⟩

/-- All three numbers fill their 64 bytes. -/
def FullLength (keyG : ℕ) (keys : ℕ × ℕ) : Prop :=
  (toBytesBe keys.1).length = 64 ∧ (toBytesBe keys.2).length = 64 ∧
    (toBytesBe (modpow keyG keys.2 keys.1)).length = 64

instance (keyG : ℕ) (keys : ℕ × ℕ) : Decidable (FullLength keyG keys) :=
  inferInstanceAs (Decidable (_ ∧ _ ∧ _))

/-- The pairs `n` and `k` that are drawn, one after another; not all of them are too short. -/
structure KeyRng (keyG : ℕ) where
  draws : ℕ → ℕ × ℕ
  full : ∃ i, FullLength keyG (draws i)

namespace KeyRng

variable {keyG : ℕ} (rng : KeyRng keyG)

/-- The first pair of full length. -/
def drawn : ℕ × ℕ := rng.draws (Nat.find rng.full)

def keyN : ℕ := rng.drawn.1

def keyK : ℕ := rng.drawn.2

def keyX : ℕ := modpow keyG rng.keyK rng.keyN

end KeyRng

/-- The texts that are to go into the server's configuration, and into its clients'. -/
structure GeneratedKeys where
  serverN : String
  serverK : String
  client : ClientKeys

/-- The loop of `generate_keys` for one service: it draws until all lengths are right. -/
def generateKeys (keyG : ℕ) (rng : KeyRng keyG) : GeneratedKeys where
  serverN := Base64.encode (toBytesBe rng.keyN)
  serverK := Base64.encode (toBytesBe rng.keyK)
  client := ⟨Base64.encode (toBytesBe rng.keyN), Base64.encode (toBytesBe rng.keyX)⟩

lemma decodeCryptKey_encode {key : ℕ} (h : (toBytesBe key).length = 64) :
    decodeCryptKey Base64.decode (Base64.encode (toBytesBe key)) = .ok key := by
  rw [decodeCryptKey, Base64.decode_encode]
  dsimp only
  rw [if_pos h, fromBytesBe_toBytesBe]

/-! ### The client -/

/-- The client's header, with a key of full length. -/
def clientHello (keyY : ℕ) : Bytes := cliToSrvConnect :: maxSize :: le 64 keyY

/-- The client's RC4 key, from the server's reply. -/
def clientFinish (keyN keyX b : ℕ) : Bytes → Option Bytes
  | msgId :: msgSize :: seed =>
    if msgId = srvToCliEncrypt ∧ msgSize = encryptReplySize ∧ seed.length = 7 then
      some (List.zipWith (· ^^^ ·) ((toBytesLe (modpow keyX b keyN)).take 7) seed)
    else none
  | _ => none

lemma clientFinish_cryptReply (keyN keyX b : ℕ) {seed : Bytes} (h : seed.length = 7) :
    clientFinish keyN keyX b (createCryptReply seed) =
      some (List.zipWith (· ^^^ ·) ((toBytesLe (modpow keyX b keyN)).take 7) seed) :=
  if_pos ⟨rfl, rfl, h⟩

/-! ### The exchange -/

section Exchange

variable (rc4 : Rc4Key → ℕ → UInt8) (rng : Rng) {keyN keyK : ℕ}

lemma initCrypt_clientHello (keyN keyK : ℕ) {keyY : ℕ} (hy : keyY < 2 ^ clientKeyBitSize)
    (rest : Bytes) :
    ∃ header : CryptConnectHeader, header.msgId = cliToSrvConnect ∧
      ofLe header.keySeed = keyY ∧ initCrypt rc4 rng keyN keyK ⟨⟨clientHello keyY ++ rest⟩, none⟩ =
        answerHeader rc4 rng keyN keyK ⟨⟨rest⟩, none⟩ header := by
  have hsize : (maxSize - fixedSize).toNat = 64 := by decide
  have hread : (Reader.exact 64).run (le 64 keyY ++ rest) = .ok (le 64 keyY, rest) :=
    Reads.exact (le 64 keyY) (length_le 64 keyY) rest
  refine ⟨(fixedHeader cliToSrvConnect maxSize).fill (le 64 keyY), rfl, ?_, ?_⟩
  · rw [ofLe_fill (by rw [length_le]), ofLe_le]
    calc
      keyY < 2 ^ clientKeyBitSize := hy
      _ = 2 ^ (8 * 64) := by rw [show clientKeyBitSize = 8 * 64 from rfl]
      _ = 256 ^ 64 := pow_mul 2 8 64
  · show initCrypt rc4 rng keyN keyK ⟨⟨_ :: _ :: (le 64 keyY ++ rest)⟩, none⟩ = _
    rw [initCrypt_cons, if_pos (by decide), hsize, hread]

lemma cryptKeyCreate_of_le (hzero : keyN ≠ 0) (hn : keyN < 2 ^ clientKeyBitSize) (keyY : ℕ)
    (hlong : 2 ^ 55 ≤ modpow keyY keyK keyN) : cryptKeyCreate rng keyN keyK keyY =
      .ok (rng.serverSeed, List.zipWith (· ^^^ ·) ((toBytesLe (modpow keyY keyK keyN)).take 7)
        rng.serverSeed) := by
  have hbits : serverSeedBitSize ≤ bits (modpow keyY keyK keyN) := (lt_bits_iff (k := 55)).2 hlong
  have hlt : modpow keyY keyK keyN < keyN := Nat.mod_lt _ (Nat.pos_of_ne_zero hzero)
  unfold cryptKeyCreate
  rw [if_neg hzero]
  dsimp only
  rw [if_pos ⟨hbits, bits_le_iff.2 (hlt.trans hn)⟩, if_pos (length_key rng hbits)]
  rfl

lemma answerHeader_agrees (hzero : keyN ≠ 0) (hn : keyN < 2 ^ clientKeyBitSize) (keyG b : ℕ)
    {header : CryptConnectHeader} (hid : header.msgId = cliToSrvConnect)
    (hy : ofLe header.keySeed = modpow keyG b keyN) (rest : Bytes)
    (hlong : 2 ^ 55 ≤ modpow (modpow keyG keyK keyN) b keyN) :
    ∃ (key : Bytes) (h : key.length = 7),
      clientFinish keyN (modpow keyG keyK keyN) b
        (answerHeader rc4 rng keyN keyK ⟨⟨rest⟩, none⟩ header).sent = some key ∧
      (answerHeader rc4 rng keyN keyK ⟨⟨rest⟩, none⟩ header).result =
        .ok ⟨⟨rest⟩, ⟨rc4 ⟨key, h⟩, 0⟩⟩ := by
  have hshared : modpow (ofLe header.keySeed) keyK keyN =
      modpow (modpow keyG keyK keyN) b keyN := by
    rw [hy, modpow_modpow_comm]
  have hcreate := cryptKeyCreate_of_le rng hzero hn (ofLe header.keySeed) (hshared ▸ hlong)
  have hkey : (List.zipWith (· ^^^ ·)
      ((toBytesLe (modpow (modpow keyG keyK keyN) b keyN)).take 7) rng.serverSeed).length = 7 :=
    length_key rng ((lt_bits_iff (k := 55)).2 hlong)
  rw [hshared] at hcreate
  refine ⟨_, hkey, ?_, ?_⟩
  · unfold answerHeader
    rw [if_neg (not_not.2 hid)]
    dsimp only
    rw [hcreate]
    exact clientFinish_cryptReply _ _ _ rng.length_serverSeed
  · unfold answerHeader
    rw [if_neg (not_not.2 hid)]
    dsimp only
    rw [hcreate]
    exact newStream_of_length hkey

end Exchange

/-- **Generated keys work**: a server configured with the texts that `generate_keys` prints has the
keys `n` and `k` that were drawn, and publishes the texts that were printed for its clients. A
client configured with those gets the server's RC4 key, whatever exponent and seed are drawn, unless
the number they share has fewer than 56 bits; then the server's worker panics. -/
theorem generatedKeys_agree (keyG : ℕ) (keyRng : KeyRng keyG) (rc4 : Rc4Key → ℕ → UInt8)
    (rng : Rng) (b : ℕ) (rest : Bytes) :
    let keys := generateKeys keyG keyRng
    let exchange := initCrypt rc4 rng keyRng.keyN keyRng.keyK
      ⟨⟨clientHello (modpow keyG b keyRng.keyN) ++ rest⟩, none⟩
    decodeCryptKey Base64.decode keys.serverN = .ok keyRng.keyN ∧
    decodeCryptKey Base64.decode keys.serverK = .ok keyRng.keyK ∧
    clientKeys keyG keyRng.keyK keyRng.keyN = .ok keys.client ∧
    decodeCryptKey Base64.decode keys.client.n = .ok keyRng.keyN ∧
    decodeCryptKey Base64.decode keys.client.x = .ok keyRng.keyX ∧
    (modpow keyRng.keyX b keyRng.keyN < 2 ^ 55 → exchange.Panics) ∧
    (2 ^ 55 ≤ modpow keyRng.keyX b keyRng.keyN → ∃ (key : Bytes) (h : key.length = 7),
      clientFinish keyRng.keyN keyRng.keyX b exchange.sent = some key ∧
      exchange.result = .ok ⟨⟨rest⟩, ⟨rc4 ⟨key, h⟩, 0⟩⟩) := by
  intro keys exchange
  obtain ⟨hn, hk, hx⟩ : FullLength keyG keyRng.drawn := Nat.find_spec keyRng.full
  have hdecode : decodeCryptKey Base64.decode keys.serverN = .ok keyRng.keyN :=
    decodeCryptKey_encode hn
  have hlt : keyRng.keyN < 2 ^ clientKeyBitSize := decodeCryptKey_lt hdecode
  have hone : 1 < keyRng.keyN := one_lt_of_length_toBytesBe (hn ▸ by decide)
  have hzero : keyRng.keyN ≠ 0 := by omega
  have hy : modpow keyG b keyRng.keyN < 2 ^ clientKeyBitSize :=
    (Nat.mod_lt _ (by omega)).trans hlt
  obtain ⟨header, hid, hseed, hinit⟩ :=
    initCrypt_clientHello rc4 rng keyRng.keyN keyRng.keyK hy rest
  refine ⟨hdecode, decodeCryptKey_encode hk, if_neg hzero, hdecode, decodeCryptKey_encode hx, ?_⟩
  have hexchange : exchange = answerHeader rc4 rng keyRng.keyN keyRng.keyK ⟨⟨rest⟩, none⟩ header :=
    hinit
  rw [hexchange]
  refine ⟨fun hshort => ?_, answerHeader_agrees rc4 rng hzero hlt keyG b hid hseed rest⟩
  refine (answerHeader_spec hone hlt _ _).1.2 ⟨hid, ?_⟩
  rw [RootOfShort, ← modpow_lt_iff, hseed, modpow_modpow_comm]
  exact hshort

/-! ### Keys of full length -/

def largePower : ℕ := 128 * 256 ^ 63

lemma modpow_largePower (m : ℕ) :
    modpow cryptBaseGateKeeper (255 + (255 + 256) * m) (largePower - 1) = 4 ^ 255 := by
  have hone : 4 ^ 255 * 4 ^ 256 ≡ 1 [MOD largePower - 1] := by decide +kernel
  have hcongr : 4 ^ (255 + (255 + 256) * m) ≡ 4 ^ 255 [MOD largePower - 1] := by
    calc
      4 ^ (255 + (255 + 256) * m) = 4 ^ 255 * (4 ^ 255 * 4 ^ 256) ^ m := by
        rw [← pow_add, ← pow_mul, ← pow_add]
      _ ≡ 4 ^ 255 * 1 ^ m [MOD largePower - 1] := (hone.pow m).mul_left _
      _ = 4 ^ 255 := by rw [one_pow, Nat.mul_one]
  exact Eq.trans hcongr (by decide +kernel)

/-- A draw of full length for the gate keeper. -/
def KeyRng.large : KeyRng cryptBaseGateKeeper where
  draws _ := (largePower - 1, 255 + (255 + 256) * 256 ^ 62)
  full := ⟨0, by decide +kernel, by decide +kernel, by
    rw [modpow_largePower]
    decide +kernel⟩

/-- With the exponent 1, the number shared is `x` itself. -/
theorem largeKeys_agree : ∃ key,
    decodeCryptKey Base64.decode (generateKeys cryptBaseGateKeeper .large).serverN =
      .ok (largePower - 1) ∧
    decodeCryptKey Base64.decode (generateKeys cryptBaseGateKeeper .large).client.x =
      .ok (4 ^ 255) ∧
    clientFinish (largePower - 1) (4 ^ 255) 1 (initCrypt (fun _ _ => 0) Rng.steady
      (largePower - 1) (255 + (255 + 256) * 256 ^ 62)
      ⟨⟨clientHello (modpow cryptBaseGateKeeper 1 (largePower - 1))⟩, none⟩).sent = some key := by
  have hx : KeyRng.large.keyX = 4 ^ 255 := modpow_largePower _
  obtain ⟨hN, -, -, -, hX, -, hagree⟩ := generatedKeys_agree cryptBaseGateKeeper .large
    (fun _ _ => 0) Rng.steady 1 []
  rw [hx] at hX hagree
  obtain ⟨key, -, hkey, -⟩ := hagree (by decide +kernel)
  exact ⟨key, hN, hX, hkey⟩

end Moulars.Net.Handshake
