import Moulars.Lib.Wire

/-!
The decrypting side of `CryptTcpStream`.

The socket is an adversary: at every poll it decides whether anything is ready, whether the read
fails, and how many ciphertext bytes it hands over. The RC4 cipher is a keystream and the position
reached in it.
-/

namespace Moulars.Net.Crypt

open Lib.Wire

/-- A stream cipher: its keystream and the number of keystream bytes used so far. -/
structure Cipher where
  key : ℕ → UInt8
  pos : ℕ

/-- `bs` combined with the keystream bytes from position `p` on. -/
def xorFrom (key : ℕ → UInt8) : ℕ → Bytes → Bytes
  | _, [] => []
  | p, b :: bs => (b ^^^ key p) :: xorFrom key (p + 1) bs

def Cipher.applyKeystream (c : Cipher) (bs : Bytes) : Bytes × Cipher :=
  (xorFrom c.key c.pos bs, { c with pos := c.pos + bs.length })

@[simp] lemma length_xorFrom (key : ℕ → UInt8) (p : ℕ) (bs : Bytes) :
    (xorFrom key p bs).length = bs.length := by
  induction bs generalizing p with
  | nil => rfl
  | cons b bs ih => simp [xorFrom, ih]

lemma xorFrom_append (key : ℕ → UInt8) (p : ℕ) (bs cs : Bytes) :
    xorFrom key p (bs ++ cs) = xorFrom key p bs ++ xorFrom key (p + bs.length) cs := by
  induction bs generalizing p with
  | nil => rfl
  | cons b bs ih =>
    rw [List.cons_append, xorFrom, ih, xorFrom, List.cons_append, List.length_cons]
    congr 3
    omega

/-- The buffer a reader passes to `poll_read`: a capacity and the bytes filled so far. -/
structure ReadBuf where
  capacity : ℕ
  filled : Bytes
  fits : filled.length ≤ capacity

def ReadBuf.remaining (b : ReadBuf) : ℕ := b.capacity - b.filled.length

/-- What the socket does at one poll. -/
inductive SockPoll
  | pending
  | failed
  | ready (n : ℕ)

inductive Poll
  | pending
  | readyErr
  | readyOk
  deriving DecidableEq

/-- The ciphertext the socket has still to deliver. -/
structure TcpStream where
  incoming : Bytes

/-- The bytes a ready socket appends to the buffer: at most `n`, at most what is there and at
most what fits. -/
def TcpStream.chunk (s : TcpStream) (n : ℕ) (b : ReadBuf) : Bytes :=
  s.incoming.take (min n b.remaining)

lemma TcpStream.chunk_fits (s : TcpStream) (n : ℕ) (b : ReadBuf) :
    (b.filled ++ s.chunk n b).length ≤ b.capacity := by
  have := b.fits
  simp only [chunk, ReadBuf.remaining, List.length_append, List.length_take]
  omega

def TcpStream.pollRead (s : TcpStream) : SockPoll → ReadBuf → Poll × TcpStream × ReadBuf
  | .pending, b => (.pending, s, b)
  | .failed, b => (.readyErr, s, b)
  | .ready n, b =>
    (.readyOk, ⟨s.incoming.drop (s.chunk n b).length⟩, ⟨b.capacity, b.filled ++ s.chunk n b,
      s.chunk_fits n b⟩)

/-- The receiving half of `CryptTcpStream`. -/
structure CryptTcpStream where
  stream : TcpStream
  cipherRead : Cipher

def CryptTcpStream.pollRead (s : CryptTcpStream) (ev : SockPoll) (b : ReadBuf) :
    Poll × CryptTcpStream × ReadBuf :=
  match s.stream.pollRead ev b with
  | (.readyOk, stream, b) =>
    -- `filled_mut` is everything filled so far, not only what this poll appended
    let out := s.cipherRead.applyKeystream b.filled
    (.readyOk, ⟨stream, out.2⟩, ⟨b.capacity, out.1, by
      simpa [out, Cipher.applyKeystream] using b.fits⟩)
  | (result, stream, b) => (result, ⟨stream, s.cipherRead⟩, b)

/-! ### Series of calls -/

/-- One call of `poll_read`: the buffer passed in and what the socket does. -/
structure Call where
  buf : ReadBuf
  ev : SockPoll

def after (s : CryptTcpStream) : List Call → CryptTcpStream
  | [] => s
  | c :: cs => after (s.pollRead c.ev c.buf).2.1 cs

def results (s : CryptTcpStream) : List Call → List ReadBuf
  | [] => []
  | c :: cs => (s.pollRead c.ev c.buf).2.2 :: results (s.pollRead c.ev c.buf).2.1 cs

/-- The bytes a call appended to the buffer `b` it was given. -/
def appended (b : ReadBuf) (r : ReadBuf) : Bytes := r.filled.drop b.filled.length

def taken (s : CryptTcpStream) (cs : List Call) : Bytes :=
  s.stream.incoming.take (s.stream.incoming.length - (after s cs).stream.incoming.length)

/-- **Transparent decryption**: every call leaves the bytes filled before it unchanged, the
bytes appended are the ciphertext under the keystream position by position, and the cipher
has used one keystream byte for each of them. -/
structure Transparent (s : CryptTcpStream) (cs : List Call) : Prop where
  kept : List.Forall₂ (fun c r => c.buf.filled <+: ReadBuf.filled r) cs (results s cs)
  plain : (List.zipWith (fun c r => appended c.buf r) cs (results s cs)).flatten =
    xorFrom s.cipherRead.key s.cipherRead.pos (taken s cs)
  once : (after s cs).cipherRead.pos = s.cipherRead.pos + (taken s cs).length

/-- A call that the socket completes with data comes with an empty buffer. -/
def Call.Fresh (c : Call) : Prop :=
  match c.ev with
  | .ready _ => c.buf.filled = []
  | _ => True

/-- The number of bytes filled before a call that completes. -/
def Call.stale (c : Call) : ℕ :=
  match c.ev with
  | .ready _ => c.buf.filled.length
  | _ => 0

lemma Call.fresh_iff (c : Call) : c.Fresh ↔ c.stale = 0 := by
  obtain ⟨b, ev⟩ := c
  cases ev <;> simp [Fresh, stale]

/-! ### One call -/

variable (s : CryptTcpStream)

def Call.chunk (c : Call) : Bytes :=
  match c.ev with
  | .ready n => s.stream.chunk n c.buf
  | _ => []

lemma incoming_step (c : Call) :
    s.stream.incoming = c.chunk s ++ (s.pollRead c.ev c.buf).2.1.stream.incoming := by
  obtain ⟨b, ev⟩ := c
  cases ev with
  | pending => rfl
  | failed => rfl
  | ready n =>
    simp only [Call.chunk, CryptTcpStream.pollRead, TcpStream.pollRead, TcpStream.chunk,
      List.length_take]
    rw [List.take_eq_take_min, List.take_append_drop]

lemma key_step (c : Call) :
    (s.pollRead c.ev c.buf).2.1.cipherRead.key = s.cipherRead.key := by
  obtain ⟨b, ev⟩ := c
  cases ev <;> rfl

lemma pos_step (c : Call) : (s.pollRead c.ev c.buf).2.1.cipherRead.pos =
    s.cipherRead.pos + c.stale + (c.chunk s).length := by
  obtain ⟨b, ev⟩ := c
  cases ev with
  | pending => rfl
  | failed => rfl
  | ready n =>
    simp [CryptTcpStream.pollRead, TcpStream.pollRead, Cipher.applyKeystream, Call.stale,
      Call.chunk]
    omega

lemma filled_step {c : Call} (h : c.Fresh) : (s.pollRead c.ev c.buf).2.2.filled =
    c.buf.filled ++ xorFrom s.cipherRead.key s.cipherRead.pos (c.chunk s) := by
  obtain ⟨b, ev⟩ := c
  cases ev with
  | pending => simp [CryptTcpStream.pollRead, TcpStream.pollRead, Call.chunk, xorFrom]
  | failed => simp [CryptTcpStream.pollRead, TcpStream.pollRead, Call.chunk, xorFrom]
  | ready n =>
    have hb : b.filled = [] := h
    simp [CryptTcpStream.pollRead, TcpStream.pollRead, Cipher.applyKeystream, Call.chunk, hb]

/-! ### Whole series -/

/-- The ciphertext the calls take, call by call. -/
def chunks (s : CryptTcpStream) : List Call → Bytes
  | [] => []
  | c :: cs => c.chunk s ++ chunks (s.pollRead c.ev c.buf).2.1 cs

lemma incoming_after (cs : List Call) :
    s.stream.incoming = chunks s cs ++ (after s cs).stream.incoming := by
  induction cs generalizing s with
  | nil => rfl
  | cons c cs ih =>
    rw [chunks, after, List.append_assoc, ← ih]
    exact incoming_step s c

lemma taken_eq (cs : List Call) : taken s cs = chunks s cs := by
  have h := incoming_after s cs
  have hl : s.stream.incoming.length - (after s cs).stream.incoming.length =
      (chunks s cs).length := by
    rw [h]; simp
  unfold taken
  rw [hl]
  nth_rewrite 1 [h]
  simp

lemma pos_after (cs : List Call) : (after s cs).cipherRead.pos =
    s.cipherRead.pos + (cs.map Call.stale).sum + (chunks s cs).length := by
  induction cs generalizing s with
  | nil => rfl
  | cons c cs ih =>
    rw [after, ih, pos_step, chunks]
    simp only [List.map_cons, List.sum_cons, List.length_append]
    omega

lemma kept_of_fresh {cs : List Call} (h : ∀ c ∈ cs, c.Fresh) :
    List.Forall₂ (fun c r => c.buf.filled <+: ReadBuf.filled r) cs (results s cs) := by
  induction cs generalizing s with
  | nil => exact .nil
  | cons c cs ih =>
    refine .cons ?_ (ih _ fun d hd => h d (by simp [hd]))
    rw [filled_step s (h c (by simp))]
    exact List.prefix_append _ _

lemma plain_of_fresh {cs : List Call} (h : ∀ c ∈ cs, c.Fresh) :
    (List.zipWith (fun c r => appended c.buf r) cs (results s cs)).flatten =
      xorFrom s.cipherRead.key s.cipherRead.pos (chunks s cs) := by
  induction cs generalizing s with
  | nil => rfl
  | cons c cs ih =>
    have hc := h c (by simp)
    have hz : c.stale = 0 := c.fresh_iff.mp hc
    rw [results, List.zipWith_cons_cons, List.flatten_cons, ih _ fun d hd => h d (by simp [hd]),
      appended, filled_step s hc, List.drop_left, chunks, xorFrom_append, key_step, pos_step, hz]
    rfl

/-- **When decryption is transparent**: exactly when every call that the socket completes is
given a buffer with nothing filled. -/
theorem pollRead_transparent_iff (cs : List Call) :
    Transparent s cs ↔ ∀ c ∈ cs, c.Fresh := by
  constructor
  · intro h c hc
    have hp := h.once
    rw [taken_eq, pos_after] at hp
    have hsum : (cs.map Call.stale).sum = 0 := by omega
    rw [c.fresh_iff]
    exact List.sum_eq_zero_iff_forall_eq_nat.mp hsum _ (List.mem_map_of_mem hc)
  · intro h
    have hsum : (cs.map Call.stale).sum = 0 := by
      refine List.sum_eq_zero_iff_forall_eq_nat.mpr fun n hn => ?_
      obtain ⟨c, hc, rfl⟩ := List.mem_map.mp hn
      exact c.fresh_iff.mp (h c hc)
    refine ⟨kept_of_fresh s h, ?_, ?_⟩
    · rw [taken_eq, plain_of_fresh s h]
    · rw [taken_eq, pos_after, hsum]
      omega

/-- The first keystream bytes of RC4 under the key `01 02 03 04 05 06 07`. -/
def sampleKey (i : ℕ) : UInt8 :=
  [0x29, 0x3f, 0x02, 0xd4, 0x7f, 0x37, 0xc9, 0xb6].getD i 0

def sampleStream : CryptTcpStream := ⟨⟨[0x41, 0x42]⟩, ⟨sampleKey, 0⟩⟩

/-- Two polls of one large `read_exact`: the second finds the byte of the first one filled. -/
def sampleCalls : List Call :=
  [⟨⟨16384, [], by decide⟩, .ready 1⟩, ⟨⟨16384, [0x41 ^^^ 0x29], by decide⟩, .ready 1⟩]

/-- A payload that arrives in two parts is decrypted twice over its first part. -/
theorem pollRead_garbles_partial_read : ¬ Transparent sampleStream sampleCalls := by
  intro h
  obtain _ | ⟨-, _ | ⟨hkept, -⟩⟩ := h.kept
  revert hkept
  decide

end Moulars.Net.Crypt
