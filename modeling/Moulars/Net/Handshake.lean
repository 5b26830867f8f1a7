import Moulars.Lib.BigUint
import Moulars.Net.Crypt

/-!
The handshake that sets up encryption: `init_crypt` and the configured keys it uses.

Both sides take 7 bytes of `y ^ k` modulo `n` for the key, where `y` is the client's number,
combined with a seed of the server. The server asserts that there are as many. What the client sends
and what is drawn at random is decided outside; Base64 and RC4 are parameters.
-/

namespace Moulars.Net.Handshake

open Lib.Wire Lib.BigUint Net.Crypt

def serverSeedSize : UInt8 := 7

def clientKeySize : UInt8 := 64

def serverSeedBitSize : ℕ := serverSeedSize.toNat * 8

def clientKeyBitSize : ℕ := clientKeySize.toNat * 8

/-! ### Configured keys -/

def decodeCryptKey (base64 : String → Option Bytes) (value : String) : Except Fault ℕ :=
  match base64 value with
  | none => .error (.error s!"Could not parse Base64 key '{value}'")
  | some bytes =>
    if bytes.length = 64 then .ok (fromBytesBe bytes)
    else .error (.error s!"Invalid key length for key '{value}'")

lemma decodeCryptKey_lt {base64 : String → Option Bytes} {value : String} {key : ℕ}
    (h : decodeCryptKey base64 value = .ok key) : key < 2 ^ clientKeyBitSize := by
  unfold decodeCryptKey at h
  split at h
  · cases h
  · rename_i bytes _
    split at h
    · rename_i hlength
      cases h
      have hlt := fromBytesBe_lt bytes
      rw [hlength] at hlt
      calc
        fromBytesBe bytes < (2 ^ 8) ^ 64 := hlt
        _ = 2 ^ (8 * 64) := (pow_mul 2 8 64).symm
        _ = 2 ^ clientKeyBitSize := by rw [show clientKeyBitSize = 8 * 64 from rfl]
    · cases h

/-! ### The stream -/

abbrev Rc4Key := { key : Bytes // key.length = 7 }

/-- `CryptTcpStream::new`; `Key::from_slice` panics if the key has another length. -/
def newStream (rc4 : Rc4Key → ℕ → UInt8) (stream : TcpStream) (keyData : Bytes) :
    Except Fault CryptTcpStream :=
  if h : keyData.length = 7 then .ok ⟨stream, ⟨rc4 ⟨keyData, h⟩, 0⟩⟩
  else .error (.panic "assertion `left == right` failed")

/-! ### The header -/

def cliToSrvConnect : UInt8 := 0
def srvToCliEncrypt : UInt8 := 1
def srvToCliError : UInt8 := 2

namespace CryptConnectHeader

def fixedSize : UInt8 := 2
def maxSize : UInt8 := fixedSize + clientKeySize
def encryptReplySize : UInt8 := fixedSize + serverSeedSize

end CryptConnectHeader

open CryptConnectHeader

structure CryptConnectHeader where
  msgId : UInt8
  msgSize : UInt8
  keySeed : Bytes
  full : keySeed.length = 64

/-- Only the fixed part; the key is left zero. -/
def CryptConnectHeader.streamRead : Reader CryptConnectHeader := do
  let msgId ← Reader.u8
  let msgSize ← Reader.u8
  pure ⟨msgId, msgSize, List.replicate 64 0, List.length_replicate⟩

/-- The header with a key read into the front of its `key_seed`. -/
def CryptConnectHeader.fill (header : CryptConnectHeader) (key : Bytes) : CryptConnectHeader :=
  { header with
    keySeed := (key ++ header.keySeed.drop key.length).take 64
    full := by
      have := header.full
      simp only [List.length_take, List.length_append, List.length_drop]
      omega }

def createErrorReply : Bytes := [srvToCliError, fixedSize]

def createCryptReply (serverSeed : Bytes) : Bytes :=
  srvToCliEncrypt :: encryptReplySize :: serverSeed

/-! ### The keys -/

/-- What `gen_biguint(SERVER_SEED_BIT_SIZE)` returns, call after call: never more than the bits
asked for, and not short for ever. -/
structure Rng where
  draws : ℕ → ℕ
  fits : ∀ i, draws i < 2 ^ 56
  long : ∃ i, (toBytesLe (draws i)).length = 7

/-- The loop that draws until the seed has all its bytes. -/
def Rng.serverSeed (rng : Rng) : Bytes := toBytesLe (rng.draws (Nat.find rng.long))

lemma Rng.length_serverSeed (rng : Rng) : rng.serverSeed.length = 7 := Nat.find_spec rng.long

/-- The server seed and the local RC4 key, with the assertions the source makes. -/
def cryptKeyCreate (rng : Rng) (keyN keyK keyY : ℕ) : Except Fault (Bytes × Bytes) :=
  if keyN = 0 then .error (.panic "attempt to calculate with zero modulus!")
  else
    let clientSeed := modpow keyY keyK keyN
    if bits clientSeed ≥ serverSeedBitSize ∧ bits clientSeed ≤ clientKeyBitSize then
      let keyBuffer := toBytesLe clientSeed
      -- the seed has a byte for each of the bytes taken
      let key := List.zipWith (· ^^^ ·) (keyBuffer.take serverSeedSize.toNat) rng.serverSeed
      if key.length = serverSeedSize.toNat then .ok (rng.serverSeed, key)
      else .error (.panic "assertion `left == right` failed")
    else .error (.panic ("assertion failed: client_seed.bits() >= SERVER_SEED_BIT_SIZE &&\n"
      ++ "    client_seed.bits() <= CLIENT_KEY_BIT_SIZE"))

/-! ### The exchange -/

/-- What was written to the socket, and how the call ended. -/
structure Exchange where
  sent : Bytes
  result : Except Fault CryptTcpStream

/-- A socket with what the client sends on it; what the client sends ends there. Writing fails
with `writeError`, if there is one. -/
structure Sock where
  stream : TcpStream
  writeError : Option String

/-- Write, then go on. -/
def Sock.writeAll (sock : Sock) (reply : Bytes) (next : Except Fault CryptTcpStream) : Exchange :=
  match sock.writeError with
  | none => ⟨reply, next⟩
  | some text => ⟨[], .error (.error text)⟩

section InitCrypt

variable (rc4 : Rc4Key → ℕ → UInt8) (rng : Rng) (keyN keyK : ℕ)

/-- `init_crypt` once the header has been read. -/
def answerHeader (sock : Sock) (cryptHeader : CryptConnectHeader) : Exchange :=
  if cryptHeader.msgId ≠ cliToSrvConnect then
    sock.writeAll createErrorReply
      (.error (.error s!"Invalid encrypt message type {cryptHeader.msgId.toNat}"))
  else
    let keyY := ofLe cryptHeader.keySeed
    match cryptKeyCreate rng keyN keyK keyY with
    | .error err => ⟨[], .error err⟩
    | .ok (serverSeed, cryptKey) =>
      sock.writeAll (createCryptReply serverSeed) (newStream rc4 sock.stream cryptKey)

def initCrypt (sock : Sock) : Exchange :=
  match (Reader.exact fixedSize.toNat).run sock.stream.incoming with
  | .error err => ⟨[], .error err⟩
  | .ok (buffer, incoming) =>
    let sock := { sock with stream := ⟨incoming⟩ }
    match CryptConnectHeader.streamRead.run buffer with
    | .error err => ⟨[], .error err⟩
    | .ok (cryptHeader, _) =>
      if cryptHeader.msgSize > fixedSize ∧ cryptHeader.msgSize ≤ maxSize then
        let keySize := cryptHeader.msgSize - fixedSize
        match (Reader.exact keySize.toNat).run sock.stream.incoming with
        | .error err => ⟨[], .error err⟩
        | .ok (key, incoming) => answerHeader rc4 rng keyN keyK { sock with stream := ⟨incoming⟩ }
            (cryptHeader.fill key)
      else if cryptHeader.msgSize ≠ fixedSize then
        sock.writeAll createErrorReply
          (.error (.error s!"Invalid encryption header size {cryptHeader.msgSize.toNat}"))
      else answerHeader rc4 rng keyN keyK sock cryptHeader

/-! ### Which headers end in a panic -/

/-- The header is accepted, with the number `y` for a key. -/
def Offers (bytes : Bytes) (y : ℕ) : Prop :=
  ∃ size key rest, bytes = cliToSrvConnect :: size :: (key ++ rest) ∧ fixedSize ≤ size ∧
    size ≤ maxSize ∧ key.length = size.toNat - fixedSize.toNat ∧ y = ofLe key

/-- `y` is a root modulo `n`, of degree `k`, of a number with fewer bits than the server's seed. -/
def RootOfShort (n k y : ℕ) : Prop := ∃ s < 2 ^ 55, y ^ k ≡ s [MOD n]

def Exchange.Panics (e : Exchange) : Prop := ∃ text, e.result = .error (.panic text)

variable {keyN keyK}

lemma length_key {clientSeed : ℕ} (h : serverSeedBitSize ≤ bits clientSeed) :
    (List.zipWith (· ^^^ ·) ((toBytesLe clientSeed).take serverSeedSize.toNat)
      rng.serverSeed).length = serverSeedSize.toNat := by
  have hbits : 56 ≤ bits clientSeed := h
  have hne : clientSeed ≠ 0 := by
    rintro rfl
    exact absurd hbits (by decide)
  have hbytes : 7 ≤ (toBytesLe clientSeed).length := by
    rw [length_toBytesLe hne]
    omega
  have htake : ((toBytesLe clientSeed).take serverSeedSize.toNat).length = 7 :=
    List.length_take_of_le hbytes
  rw [List.length_zipWith, htake, rng.length_serverSeed]
  rfl

lemma rootOfShort_iff {keyY : ℕ} :
    RootOfShort keyN keyK keyY ↔ ¬ serverSeedBitSize ≤ bits (modpow keyY keyK keyN) := by
  have hlong : serverSeedBitSize ≤ bits (modpow keyY keyK keyN) ↔ 2 ^ 55 ≤ modpow keyY keyK keyN :=
    lt_bits_iff (k := 55)
  rw [RootOfShort, ← modpow_lt_iff, hlong, not_le]

/-- The first assertion fails for roots of short numbers, and the second one never does. -/
lemma cryptKeyCreate_cases (hn : 1 < keyN) (hn' : keyN < 2 ^ clientKeyBitSize) (keyK keyY : ℕ) :
    (RootOfShort keyN keyK keyY ∧
      ∃ text, cryptKeyCreate rng keyN keyK keyY = .error (.panic text)) ∨
    (¬ RootOfShort keyN keyK keyY ∧ ∃ key, key.length = 7 ∧
      cryptKeyCreate rng keyN keyK keyY = .ok (rng.serverSeed, key)) := by
  have hzero : keyN ≠ 0 := by omega
  have hlt : modpow keyY keyK keyN < keyN := Nat.mod_lt _ (by omega)
  unfold cryptKeyCreate
  rw [if_neg hzero]
  dsimp only
  by_cases hshort : RootOfShort keyN keyK keyY
  · rw [if_neg fun h => rootOfShort_iff.1 hshort h.1]
    exact .inl ⟨hshort, _, rfl⟩
  · have hlong := not_not.1 (rootOfShort_iff.not.1 hshort)
    have hkey := length_key rng hlong
    rw [if_pos ⟨hlong, bits_le_iff.2 (hlt.trans hn')⟩, if_pos hkey]
    exact .inr ⟨hshort, _, hkey, rfl⟩

variable {rc4 rng}

lemma Sock.writeAll_panics {sock : Sock} {reply : Bytes} {next : Except Fault CryptTcpStream}
    (h : ∀ text, next ≠ .error (.panic text)) : ¬ (sock.writeAll reply next).Panics := by
  rintro ⟨text, htext⟩
  unfold writeAll at htext
  split at htext
  · exact h text htext
  · cases htext

lemma Sock.writeAll_ok {sock : Sock} {reply : Bytes} {next : Except Fault CryptTcpStream}
    {s : CryptTcpStream} (h : (sock.writeAll reply next).result = .ok s) : next = .ok s := by
  unfold writeAll at h
  split at h
  · exact h
  · cases h

def Keyed (rc4 : Rc4Key → ℕ → UInt8) (s : CryptTcpStream) : Prop :=
  ∃ key : Bytes, ∃ h : key.length = 7, s.cipherRead = ⟨rc4 ⟨key, h⟩, 0⟩

lemma newStream_of_length {stream : TcpStream} {key : Bytes} (h : key.length = 7) :
    newStream rc4 stream key = .ok ⟨stream, ⟨rc4 ⟨key, h⟩, 0⟩⟩ := dif_pos h

/-- **The answer to a header**: a panic exactly for a root of a short number, and a key of 7 bytes
with every stream. -/
lemma answerHeader_spec (hn : 1 < keyN) (hn' : keyN < 2 ^ clientKeyBitSize) (sock : Sock)
    (header : CryptConnectHeader) :
    ((answerHeader rc4 rng keyN keyK sock header).Panics ↔
      header.msgId = cliToSrvConnect ∧ RootOfShort keyN keyK (ofLe header.keySeed)) ∧
    ∀ s, (answerHeader rc4 rng keyN keyK sock header).result = .ok s → Keyed rc4 s := by
  unfold answerHeader
  by_cases hid : header.msgId = cliToSrvConnect
  · rw [if_neg (not_not.2 hid)]
    dsimp only
    rcases cryptKeyCreate_cases rng hn hn' keyK (ofLe header.keySeed) with
      ⟨hshort, text, htext⟩ | ⟨hshort, key, hkey, hok⟩
    · rw [htext]
      exact ⟨iff_of_true ⟨text, rfl⟩ ⟨hid, hshort⟩, nofun⟩
    · rw [hok]
      dsimp only
      rw [newStream_of_length hkey]
      refine ⟨iff_of_false (Sock.writeAll_panics nofun) fun h => hshort h.2, fun s hs => ?_⟩
      cases Sock.writeAll_ok hs
      exact ⟨key, hkey, rfl⟩
  · rw [if_pos hid]
    refine ⟨iff_of_false (Sock.writeAll_panics nofun) fun h => hid h.1, fun s hs => ?_⟩
    cases Sock.writeAll_ok hs

/-! ### The whole handshake -/

lemma ofLe_append_zeros (bs : Bytes) (k : ℕ) : ofLe (bs ++ List.replicate k 0) = ofLe bs := by
  induction bs with
  | nil =>
    induction k with
    | zero => rfl
    | succ k ih => simpa [List.replicate_succ, ofLe] using ih
  | cons b bs ih => rw [List.cons_append, ofLe, ofLe, ih]

def fixedHeader (msgId msgSize : UInt8) : CryptConnectHeader :=
  ⟨msgId, msgSize, List.replicate 64 0, List.length_replicate⟩

lemma ofLe_fixedHeader (msgId msgSize : UInt8) : ofLe (fixedHeader msgId msgSize).keySeed = 0 :=
  ofLe_append_zeros [] 64

lemma ofLe_fill {msgId msgSize : UInt8} {key : Bytes} (h : key.length ≤ 64) :
    ofLe ((fixedHeader msgId msgSize).fill key).keySeed = ofLe key := by
  show ofLe ((key ++ (List.replicate 64 0).drop key.length).take 64) = ofLe key
  rw [List.drop_replicate, List.take_of_length_le, ofLe_append_zeros]
  simp only [List.length_append, List.length_replicate]
  omega

lemma reads_header (msgId msgSize : UInt8) :
    Reads CryptConnectHeader.streamRead [msgId, msgSize] (fixedHeader msgId msgSize) := by
  have hbyte (v : UInt8) : Reads Reader.u8 [v] v := by simpa [le] using Reads.u8 v
  exact (hbyte msgId).bind (hbyte msgSize).bind_pure

lemma initCrypt_cons (msgId msgSize : UInt8) (rest : Bytes) (writeError : Option String) :
    initCrypt rc4 rng keyN keyK ⟨⟨msgId :: msgSize :: rest⟩, writeError⟩ =
      if msgSize > fixedSize ∧ msgSize ≤ maxSize then
        match (Reader.exact (msgSize - fixedSize).toNat).run rest with
        | .error err => ⟨[], .error err⟩
        | .ok (key, incoming) => answerHeader rc4 rng keyN keyK ⟨⟨incoming⟩, writeError⟩
            ((fixedHeader msgId msgSize).fill key)
      else if msgSize ≠ fixedSize then
        Sock.writeAll ⟨⟨rest⟩, writeError⟩ createErrorReply
          (.error (.error s!"Invalid encryption header size {msgSize.toNat}"))
      else answerHeader rc4 rng keyN keyK ⟨⟨rest⟩, writeError⟩ (fixedHeader msgId msgSize) := by
  have hfixed : (Reader.exact fixedSize.toNat).run (msgId :: msgSize :: rest) =
      .ok ([msgId, msgSize], rest) := Reads.exact [msgId, msgSize] rfl rest
  have hheader : CryptConnectHeader.streamRead.run [msgId, msgSize] =
      .ok (fixedHeader msgId msgSize, []) := reads_header msgId msgSize []
  unfold initCrypt
  rw [hfixed]
  dsimp only
  rw [hheader]
  rfl

lemma initCrypt_short {sock : Sock} (h : sock.stream.incoming.length < 2) :
    initCrypt rc4 rng keyN keyK sock = ⟨[], .error .eof⟩ := by
  have hfixed : (Reader.exact fixedSize.toNat).run sock.stream.incoming = .error .eof :=
    if_neg (by simpa [fixedSize] using h)
  unfold initCrypt
  rw [hfixed]

lemma offers_cons {msgId msgSize : UInt8} {rest : Bytes} {y : ℕ} :
    Offers (msgId :: msgSize :: rest) y ↔ msgId = cliToSrvConnect ∧ fixedSize ≤ msgSize ∧
      msgSize ≤ maxSize ∧ msgSize.toNat - 2 ≤ rest.length ∧
        y = ofLe (rest.take (msgSize.toNat - 2)) := by
  constructor
  · rintro ⟨size, key, tail, heq, hfixed, hmax, hlength, rfl⟩
    obtain ⟨rfl, rfl, rfl⟩ : msgId = cliToSrvConnect ∧ msgSize = size ∧ rest = key ++ tail := by
      simpa using heq
    have hlength' : key.length = msgSize.toNat - 2 := hlength
    refine ⟨rfl, hfixed, hmax, ?_, ?_⟩
    · rw [List.length_append]
      omega
    · rw [← hlength', List.take_left']
      rfl
  · rintro ⟨rfl, hfixed, hmax, hlength, rfl⟩
    exact ⟨msgSize, rest.take (msgSize.toNat - 2), rest.drop (msgSize.toNat - 2),
      by rw [List.take_append_drop], hfixed, hmax, List.length_take_of_le hlength, rfl⟩

/-- **The handshake**: with a configured modulus above 1, `init_crypt` panics exactly if the client
sends an accepted header whose key is a root, of the server's degree and modulo its modulus, of a
number of fewer than 56 bits. It returns in all other cases, and a stream it returns has an RC4 key
of 7 bytes. -/
theorem initCrypt_panics_iff {base64 : String → Option Bytes} {nText : String}
    (hN : decodeCryptKey base64 nText = .ok keyN) (hn : 1 < keyN) (keyK : ℕ)
    (rc4 : Rc4Key → ℕ → UInt8) (rng : Rng) (sock : Sock) :
    ((initCrypt rc4 rng keyN keyK sock).Panics ↔
      ∃ y, Offers sock.stream.incoming y ∧ RootOfShort keyN keyK y) ∧
    ∀ s, (initCrypt rc4 rng keyN keyK sock).result = .ok s → Keyed rc4 s := by
  have hn' := decodeCryptKey_lt hN
  obtain ⟨⟨incoming⟩, writeError⟩ := sock
  match incoming with
  | [] | [_] =>
    rw [initCrypt_short (by simp)]
    refine ⟨iff_of_false nofun ?_, nofun⟩
    rintro ⟨y, ⟨size, key, tail, heq, -⟩, -⟩
    cases heq
  | msgId :: msgSize :: rest =>
    have hanswer (sock : Sock) (header : CryptConnectHeader) :=
      @answerHeader_spec rc4 rng keyN keyK hn hn' sock header
    rw [initCrypt_cons]
    simp only [offers_cons]
    split
    · rename_i hsize
      have hsub : (msgSize - fixedSize).toNat = msgSize.toNat - 2 :=
        UInt8.toNat_sub_of_le _ _ (UInt8.le_of_lt hsize.1)
      have hmax : msgSize.toNat ≤ 66 := UInt8.le_iff_toNat_le.1 hsize.2
      rw [hsub]
      by_cases hkey : msgSize.toNat - 2 ≤ rest.length
      · -- the whole key has arrived
        have hread : (Reader.exact (msgSize.toNat - 2)).run rest =
            .ok (rest.take (msgSize.toNat - 2), rest.drop (msgSize.toNat - 2)) := if_pos hkey
        rw [hread]
        refine ⟨(hanswer _ _).1.trans ?_, (hanswer _ _).2⟩
        rw [ofLe_fill (by rw [List.length_take]; omega)]
        constructor
        · rintro ⟨hid, hroot⟩
          exact ⟨_, ⟨hid, UInt8.le_of_lt hsize.1, hsize.2, hkey, rfl⟩, hroot⟩
        · rintro ⟨_, ⟨hid, -, -, -, rfl⟩, hroot⟩
          exact ⟨hid, hroot⟩
      · have hread : (Reader.exact (msgSize.toNat - 2)).run rest = .error .eof := if_neg hkey
        rw [hread]
        refine ⟨iff_of_false nofun ?_, nofun⟩
        rintro ⟨_, ⟨-, -, -, hlength, -⟩, -⟩
        exact hkey hlength
    · rename_i hsize
      split
      · rename_i hfixed
        refine ⟨iff_of_false (Sock.writeAll_panics nofun) ?_, fun s hs => ?_⟩
        · rintro ⟨_, ⟨-, hlow, hhigh, -⟩, -⟩
          exact hsize ⟨UInt8.lt_of_le_of_ne hlow (Ne.symm hfixed), hhigh⟩
        · cases Sock.writeAll_ok hs
      · -- a header without a key is accepted, with the number 0
        rename_i hfixed
        obtain rfl : msgSize = fixedSize := not_not.1 hfixed
        refine ⟨(hanswer _ _).1.trans ?_, (hanswer _ _).2⟩
        rw [ofLe_fixedHeader]
        constructor
        · rintro ⟨hid, hroot⟩
          exact ⟨0, ⟨hid, UInt8.le_refl _, by decide, Nat.zero_le _, rfl⟩, hroot⟩
        · rintro ⟨_, ⟨hid, -, -, -, rfl⟩, hroot⟩
          exact ⟨hid, hroot⟩

/-- A header without a key is enough for a panic, whatever the server's keys. -/
lemma emptyHeader_panics (hn : 1 < keyN) (hn' : keyN < 2 ^ clientKeyBitSize) (hk : keyK ≠ 0)
    (writeError : Option String) :
    (initCrypt rc4 rng keyN keyK ⟨⟨[cliToSrvConnect, fixedSize]⟩, writeError⟩).Panics := by
  rw [initCrypt_cons, if_neg (by decide), if_neg (by decide), (answerHeader_spec hn hn' _ _).1,
    ofLe_fixedHeader]
  refine ⟨rfl, 0, by norm_num, ?_⟩
  rw [zero_pow hk]

end InitCrypt

/-! ### Two handshakes -/

def Rng.steady : Rng := ⟨fun _ => 2 ^ 55, fun _ => by decide, ⟨0, by decide +kernel⟩⟩

def largestKey : ℕ := fromBytesBe (List.replicate 64 255)

lemma decode_largestKey :
    decodeCryptKey (fun _ => some (List.replicate 64 255)) "" = .ok largestKey := rfl

theorem longKey_keyed : ∃ s, (initCrypt (fun _ _ => 0) Rng.steady largestKey 1
      ⟨⟨[cliToSrvConnect, maxSize] ++ List.replicate 63 0 ++ [128]⟩, none⟩).result = .ok s ∧
    Keyed (fun _ _ => 0) s := by
  have hreturns : (match (initCrypt (fun _ _ => 0) Rng.steady largestKey 1
      ⟨⟨[cliToSrvConnect, maxSize] ++ List.replicate 63 0 ++ [128]⟩, none⟩).result with
      | .ok _ => true
      | .error _ => false) = true := by
    decide +kernel
  split at hreturns
  · rename_i s hs
    exact ⟨s, hs, (initCrypt_panics_iff decode_largestKey (by decide +kernel) 1 _ _ _).2 s hs⟩
  · cases hreturns

theorem noKey_panics : (initCrypt (fun _ _ => 0) Rng.steady largestKey largestKey
    ⟨⟨[cliToSrvConnect, fixedSize]⟩, none⟩).Panics :=
  emptyHeader_panics (by decide +kernel) (decodeCryptKey_lt decode_largestKey)
    (by decide +kernel) none

end Moulars.Net.Handshake
