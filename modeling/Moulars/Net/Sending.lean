import Moulars.Net.Crypt

/-!
The encrypting side of `CryptTcpStream`.

Everything that is written is encrypted at once, whether or not the socket then takes it. As long
as no write has failed, the other side is in step with the cipher: it decrypts what has arrived
to what was written, and the part that still arrives of the write that fails, too.
-/

namespace Moulars.Net.Crypt

open Lib.Wire

lemma xorFrom_xorFrom (key : ℕ → UInt8) (p : ℕ) (bs : Bytes) :
    xorFrom key p (xorFrom key p bs) = bs := by
  induction bs generalizing p with
  | nil => rfl
  | cons b bs ih => rw [xorFrom, xorFrom, ih, UInt8.xor_assoc, UInt8.xor_self, UInt8.xor_zero]

lemma xorFrom_take (key : ℕ → UInt8) (p n : ℕ) (bs : Bytes) :
    xorFrom key p (bs.take n) = (xorFrom key p bs).take n := by
  induction bs generalizing p n with
  | nil => simp [xorFrom]
  | cons b bs ih =>
    cases n with
    | zero => rfl
    | succ n => rw [List.take_succ_cons, xorFrom, ih, xorFrom, List.take_succ_cons]

/-- The sending half of `CryptTcpStream`, with the ciphertext the socket has taken. -/
structure CryptWriter where
  cipherWrite : Cipher
  outgoing : Bytes

/-- The writing half that `CryptTcpStream::new` makes beside the reading one, with the same key. -/
def CryptTcpStream.writer (s : CryptTcpStream) : CryptWriter := ⟨⟨s.cipherRead.key, 0⟩, []⟩

/-- `write_all`, on a socket that takes `room` more bytes before it fails. -/
def CryptWriter.writeAll (w : CryptWriter) (room : ℕ) (buf : Bytes) : Bool × CryptWriter :=
  let out := w.cipherWrite.applyKeystream buf
  (decide (buf.length ≤ room), ⟨out.2, w.outgoing ++ out.1.take room⟩)

lemma CryptWriter.writeAll_of_le (w : CryptWriter) {room : ℕ} {buf : Bytes}
    (h : buf.length ≤ room) : w.writeAll room buf = w.writeAll buf.length buf := by
  have hlen : (w.cipherWrite.applyKeystream buf).1.length = buf.length := length_xorFrom ..
  simp only [writeAll, decide_eq_true h, decide_eq_true le_rfl,
    List.take_of_length_le (hlen.trans_le h), List.take_of_length_le hlen.le]

/-- What the bytes sent decrypt to. -/
def CryptWriter.seen (key : ℕ → UInt8) (w : CryptWriter) : Bytes := xorFrom key 0 w.outgoing

/-- All of `plain`, and nothing else, has been encrypted and sent. -/
structure InStep (key : ℕ → UInt8) (w : CryptWriter) (plain : Bytes) : Prop where
  cipher : w.cipherWrite = ⟨key, plain.length⟩
  sent : w.outgoing = xorFrom key 0 plain

section InStep

variable {key : ℕ → UInt8} {w : CryptWriter} {plain : Bytes}

lemma InStep.start (key : ℕ → UInt8) : InStep key ⟨⟨key, 0⟩, []⟩ [] := ⟨rfl, rfl⟩

lemma InStep.seen (h : InStep key w plain) : w.seen key = plain := by
  rw [CryptWriter.seen, h.sent, xorFrom_xorFrom]

lemma InStep.seen_writeAll (h : InStep key w plain) (room : ℕ) (buf : Bytes) :
    (w.writeAll room buf).2.seen key = plain ++ buf.take room := by
  have hsent : (w.writeAll room buf).2.outgoing = xorFrom key 0 (plain ++ buf.take room) := by
    rw [xorFrom_append, xorFrom_take, ← h.sent, Nat.zero_add]
    simp only [CryptWriter.writeAll, Cipher.applyKeystream, h.cipher]
  rw [CryptWriter.seen, hsent, xorFrom_xorFrom]

lemma InStep.writeAll (h : InStep key w plain) {room : ℕ} {buf : Bytes}
    (hroom : (w.writeAll room buf).1 = true) :
    InStep key (w.writeAll room buf).2 (plain ++ buf) := by
  have hle : buf.length ≤ room := of_decide_eq_true hroom
  have htake : (xorFrom key plain.length buf).take room = xorFrom key plain.length buf :=
    List.take_of_length_le (by rwa [length_xorFrom])
  constructor
  · simp only [CryptWriter.writeAll, Cipher.applyKeystream, h.cipher, List.length_append]
  · simp only [CryptWriter.writeAll, Cipher.applyKeystream, h.cipher, htake, h.sent]
    rw [xorFrom_append, Nat.zero_add]

end InStep

end Moulars.Net.Crypt
