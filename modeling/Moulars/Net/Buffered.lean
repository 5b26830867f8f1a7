import Moulars.Lib.MessageLoop
import Moulars.Net.Sending

/-!
Encrypted connections as the workers read them, through a `BufReader`.

A `BufReader` that has nothing buffered hands a large read down to the stream below, with the bytes
that the reader has got before, and `CryptTcpStream` decrypts those once more. A connection keeps a
record of all the calls of `poll_read` made on it: as long as each of them came with an empty
buffer, reading comes to the same as reading what the client has sent.
-/

namespace Moulars.Net.Crypt

open Lib.Wire Lib.Clients Lib.AsyncRead Lib.MessageLoop

/-! ### The buffered reader -/

/-- A socket hands over all that has arrived; at the end of the stream, nothing. -/
def TcpStream.readiness (closed : Bool) (s : TcpStream) : SockPoll :=
  if s.incoming = [] ∧ closed = false then .pending else .ready s.incoming.length

def bufSize : ℕ := 8192

/-- `BufReader<CryptTcpStream>`, with the calls of `poll_read` on the stream so far. -/
structure BufReader where
  buffer : Bytes
  inner : CryptTcpStream
  calls : List Call

def ReadBuf.empty (capacity : ℕ) : ReadBuf := ⟨capacity, [], Nat.zero_le _⟩

lemma ReadBuf.fits_append_take (b : ReadBuf) (bs : Bytes) :
    (b.filled ++ bs.take b.remaining).length ≤ b.capacity := by
  have hfits := b.fits
  rw [List.length_append, List.length_take, ReadBuf.remaining]
  omega

/-- `put_slice`, as far as the bytes fit. -/
def ReadBuf.put (b : ReadBuf) (bs : Bytes) : ReadBuf :=
  ⟨b.capacity, b.filled ++ bs.take b.remaining, b.fits_append_take bs⟩

namespace BufReader

def pollInner (closed : Bool) (r : BufReader) (b : ReadBuf) : Poll × BufReader × ReadBuf :=
  let ev := r.inner.stream.readiness closed
  let out := r.inner.pollRead ev b
  (out.1, ⟨r.buffer, out.2.1, r.calls ++ [⟨b, ev⟩]⟩, out.2.2)

def pollFillBuf (closed : Bool) (r : BufReader) : Poll × BufReader :=
  if r.buffer = [] then
    let out := r.pollInner closed (.empty bufSize)
    (out.1, { out.2.1 with buffer := out.2.2.filled })
  else (.readyOk, r)

def pollRead (closed : Bool) (r : BufReader) (b : ReadBuf) : Poll × BufReader × ReadBuf :=
  -- a massive read bypasses an empty buffer
  if r.buffer = [] ∧ bufSize ≤ b.remaining then r.pollInner closed b
  else
    let out := r.pollFillBuf closed
    match out.1 with
    | .readyOk =>
      (.readyOk, { out.2 with buffer := out.2.buffer.drop b.remaining }, b.put out.2.buffer)
    | result => (result, out.2, b)

/-- `read_exact`, until it is done or has to wait, in at most `fuel` rounds. -/
def readExact (closed : Bool) : ℕ → BufReader → ReadBuf → Poll × BufReader × ReadBuf
  | 0, r, b => (.pending, r, b)
  | fuel + 1, r, b =>
    if b.remaining = 0 then (.readyOk, r, b)
    else
      let out := r.pollRead closed b
      match out.1 with
      | .readyOk =>
        -- a read without a byte is the end of the stream
        if out.2.2.remaining = b.remaining then (.readyErr, out.2)
        else readExact closed fuel out.2.1 out.2.2
      | result => (result, out.2)

end BufReader

variable {α σ ε : Type}

inductive BufPolled (α : Type)
  | pending (f : Future α) (r : BufReader)
  | ready (res : Result Fault α) (r : BufReader)

def BufPolled.reader : BufPolled α → BufReader
  | .pending _ r => r
  | .ready _ r => r

/-- A reader in progress, polled on a connection. -/
def pollReader (closed : Bool) : AsyncReader α → Bytes → Bytes → BufReader → BufPolled α
  | .done res, _, _, r => .ready res r
  | .ask n k, got, taken, r =>
    let out := r.readExact closed (n + 1) ⟨max n got.length, got, le_max_right _ _⟩
    let filled := out.2.2.filled
    match out.1 with
    | .readyOk =>
      if h : filled.length = n then
        pollReader closed (k ⟨filled, h⟩) [] (taken ++ filled.drop got.length) out.2.1
      else .ready (.error .eof) out.2.1
    | .readyErr => .ready (.error .eof) out.2.1
    | .pending => .pending ⟨.ask n k, filled, taken ++ filled.drop got.length⟩ out.2.1

/-! ### The record of calls -/

namespace BufReader

/-- Every call that the socket completed came with an empty buffer. -/
def AllFresh (r : BufReader) : Prop := ∀ call ∈ r.calls, call.Fresh

lemma AllFresh.of_calls {r r' : BufReader} (h : r'.AllFresh) (hcalls : r.calls <+: r'.calls) :
    r.AllFresh :=
  fun call hcall => h call (hcalls.subset hcall)

lemma calls_pollInner (closed : Bool) (r : BufReader) (b : ReadBuf) :
    r.calls <+: (r.pollInner closed b).2.1.calls :=
  List.prefix_append _ _

lemma calls_pollRead (closed : Bool) (r : BufReader) (b : ReadBuf) :
    r.calls <+: (r.pollRead closed b).2.1.calls := by
  have hfill : r.calls <+: (r.pollFillBuf closed).2.calls := by
    unfold pollFillBuf
    split
    · exact r.calls_pollInner closed _
    · exact List.prefix_rfl
  unfold pollRead
  split
  · exact r.calls_pollInner closed b
  · dsimp only
    split <;> exact hfill

lemma calls_readExact (closed : Bool) (fuel : ℕ) (r : BufReader) (b : ReadBuf) :
    r.calls <+: (r.readExact closed fuel b).2.1.calls := by
  induction fuel generalizing r b with
  | zero => exact List.prefix_rfl
  | succ fuel ih =>
    have hread := r.calls_pollRead closed b
    unfold readExact
    split
    · exact List.prefix_rfl
    · dsimp only
      split
      · split
        · exact hread
        · exact hread.trans (ih _ _)
      · exact hread

end BufReader

lemma calls_pollReader (closed : Bool) (prog : AsyncReader α) (got taken : Bytes) (r : BufReader) :
    r.calls <+: (pollReader closed prog got taken r).reader.calls := by
  induction prog generalizing got taken r with
  | done res => exact List.prefix_rfl
  | ask n k ih =>
    have hread := r.calls_readExact closed (n + 1) ⟨max n got.length, got, le_max_right _ _⟩
    unfold pollReader
    dsimp only
    split
    · split
      · exact hread.trans (ih _ _ _ _)
      · exact hread
    · exact hread
    · exact hread

/-! ### What is read -/

namespace BufReader

/-- What has arrived and has not been taken by a reader, in plain. -/
def avail (r : BufReader) : Bytes :=
  r.buffer ++ xorFrom r.inner.cipherRead.key r.inner.cipherRead.pos r.inner.stream.incoming

/-- `part` has been taken, and the cipher is as far as before. -/
structure Takes (r r' : BufReader) (part : Bytes) : Prop where
  avail : r.avail = part ++ r'.avail
  key : r'.inner.cipherRead.key = r.inner.cipherRead.key
  total : r'.inner.cipherRead.pos + r'.inner.stream.incoming.length =
    r.inner.cipherRead.pos + r.inner.stream.incoming.length

lemma Takes.refl (r : BufReader) : Takes r r [] := ⟨rfl, rfl, rfl⟩

lemma Takes.trans {r r' r'' : BufReader} {part part' : Bytes} (h : Takes r r' part)
    (h' : Takes r' r'' part') : Takes r r'' (part ++ part') :=
  ⟨by rw [h.avail, h'.avail, List.append_assoc], h'.key.trans h.key, h'.total.trans h.total⟩

lemma Takes.of_avail_nil {r r' : BufReader} {part : Bytes} (h : Takes r r' part)
    (hnone : r.avail = []) : part = [] ∧ r'.avail = [] :=
  List.append_eq_nil_iff.1 (h.avail.symm.trans hnone)

/-- What one read is to do: it takes something, unless nothing is there. -/
structure Gets (closed : Bool) (r : BufReader) (b : ReadBuf) (part : Bytes)
    (out : Poll × BufReader × ReadBuf) : Prop where
  takes : Takes r out.2.1 part
  capacity : out.2.2.capacity = b.capacity
  filled : out.2.2.filled = b.filled ++ part
  outcome : match out.1 with
    | .readyOk => part = [] → r.avail = [] ∧ closed = true
    | .pending => r.avail = [] ∧ closed = false
    | .readyErr => False

variable {closed : Bool} {r : BufReader} {b : ReadBuf}

lemma Gets.remaining {part : Bytes} {out : Poll × BufReader × ReadBuf}
    (h : Gets closed r b part out) : out.2.2.remaining + part.length = b.remaining := by
  have hfits := out.2.2.fits
  rw [h.capacity, h.filled, List.length_append] at hfits
  rw [ReadBuf.remaining, ReadBuf.remaining, h.capacity, h.filled, List.length_append]
  omega

lemma pollInner_gets (hbuffer : r.buffer = []) (hroom : 0 < b.remaining)
    (hfresh : (r.pollInner closed b).2.1.AllFresh) :
    ∃ part, Gets closed r b part (r.pollInner closed b) := by
  set call : Call := ⟨b, r.inner.stream.readiness closed⟩ with hcall
  have hc : call.Fresh := hfresh call (by simp [pollInner, hcall])
  have hsplit := incoming_step r.inner call
  have hpos := pos_step r.inner call
  rw [call.fresh_iff.1 hc] at hpos
  refine ⟨xorFrom r.inner.cipherRead.key r.inner.cipherRead.pos (call.chunk r.inner),
    ⟨?_, key_step r.inner call, ?_⟩, ?_, filled_step r.inner hc, ?_⟩
  · show r.buffer ++ _ = _ ++ (r.buffer ++ xorFrom _ _ _)
    rw [hbuffer, List.nil_append, List.nil_append]
    show _ = _ ++ xorFrom (r.inner.pollRead call.ev call.buf).2.1.cipherRead.key
      (r.inner.pollRead call.ev call.buf).2.1.cipherRead.pos _
    rw [key_step, hpos, Nat.add_zero, ← xorFrom_append]
    exact congrArg _ hsplit
  · show (r.inner.pollRead call.ev call.buf).2.1.cipherRead.pos + _ = _
    have hlen := congrArg List.length hsplit
    rw [List.length_append] at hlen
    rw [hpos, hlen]
    show _ + (r.inner.pollRead call.ev call.buf).2.1.stream.incoming.length = _
    omega
  · show (r.inner.pollRead call.ev b).2.2.capacity = _
    cases call.ev <;> rfl
  · have hready : call.ev = r.inner.stream.readiness closed := rfl
    show match (r.inner.pollRead call.ev call.buf).1 with
      | .readyOk => _
      | .pending => _
      | .readyErr => _
    by_cases hwait : r.inner.stream.incoming = [] ∧ closed = false
    · rw [TcpStream.readiness, if_pos hwait] at hready
      rw [hready]
      refine ⟨?_, hwait.2⟩
      rw [avail, hbuffer, hwait.1]
      rfl
    · rw [TcpStream.readiness, if_neg hwait] at hready
      rw [hready]
      intro hpart
      have hnil := congrArg List.length hpart
      rw [length_xorFrom, Call.chunk, hready] at hnil
      simp only [TcpStream.chunk, List.length_take, List.length_nil] at hnil
      have hincoming : r.inner.stream.incoming = [] :=
        List.length_eq_zero_iff.1 (by
          have hrem : call.buf.remaining = b.remaining := rfl
          omega)
      refine ⟨?_, ?_⟩
      · rw [avail, hbuffer, hincoming]
        rfl
      · simpa [hincoming] using hwait

/-- Filling the buffer takes nothing yet. -/
lemma pollFillBuf_spec (hfresh : (r.pollFillBuf closed).2.AllFresh) :
    Takes r (r.pollFillBuf closed).2 [] ∧ match (r.pollFillBuf closed).1 with
      | .readyOk => (r.pollFillBuf closed).2.buffer = [] → r.avail = [] ∧ closed = true
      | .pending => r.avail = [] ∧ closed = false
      | .readyErr => False := by
  unfold pollFillBuf at hfresh ⊢
  split
  · rename_i hbuffer
    rw [if_pos hbuffer] at hfresh
    obtain ⟨part, ⟨havail, hkey, htotal⟩, -, hfilled, houtcome⟩ :=
      pollInner_gets (b := .empty bufSize) hbuffer (by decide) hfresh
    have hpart : (r.pollInner closed (.empty bufSize)).2.2.filled = part := hfilled
    rw [← hpart] at havail houtcome
    refine ⟨⟨?_, hkey, htotal⟩, houtcome⟩
    rw [havail, BufReader.avail, show (r.pollInner closed (.empty bufSize)).2.1.buffer = [] from
      hbuffer]
    rfl
  · rename_i hbuffer
    exact ⟨Takes.refl r, fun hnil => absurd hnil hbuffer⟩

lemma pollRead_gets (hroom : 0 < b.remaining) (hfresh : (r.pollRead closed b).2.1.AllFresh) :
    ∃ part, Gets closed r b part (r.pollRead closed b) := by
  unfold pollRead at hfresh ⊢
  split
  · rename_i hlarge
    rw [if_pos hlarge] at hfresh
    exact pollInner_gets hlarge.1 hroom hfresh
  · rename_i hsmall
    rw [if_neg hsmall] at hfresh
    dsimp only at hfresh ⊢
    have hfill : (r.pollFillBuf closed).2.AllFresh := by split at hfresh <;> exact hfresh
    obtain ⟨htakes, houtcome⟩ := pollFillBuf_spec hfill
    cases hresult : (r.pollFillBuf closed).1 <;> rw [hresult] at houtcome
    case readyOk =>
      refine ⟨(r.pollFillBuf closed).2.buffer.take b.remaining, ⟨?_, htakes.key, htakes.total⟩,
        rfl, rfl, fun hpart => houtcome ?_⟩
      · rw [htakes.avail]
        show [] ++ (_ ++ _) = _ ++ ((r.pollFillBuf closed).2.buffer.drop b.remaining ++ _)
        rw [← List.append_assoc (List.take _ _), List.take_append_drop]
        rfl
      · rcases List.take_eq_nil_iff.1 hpart with hzero | hnil
        · omega
        · exact hnil
    case pending => exact ⟨[], htakes, rfl, (List.append_nil _).symm, houtcome⟩
    case readyErr => exact houtcome.elim

/-- **Reading a number of bytes**: it ends with all of them, and else takes all there is. -/
lemma readExact_spec {fuel : ℕ} (hfuel : b.remaining < fuel)
    (hfresh : (r.readExact closed fuel b).2.1.AllFresh) :
    ∃ part, Takes r (r.readExact closed fuel b).2.1 part ∧
      (r.readExact closed fuel b).2.2.filled = b.filled ++ part ∧
      match (r.readExact closed fuel b).1 with
      | .readyOk => part.length = b.remaining
      | .pending => part.length < b.remaining ∧ (r.readExact closed fuel b).2.1.avail = [] ∧
        closed = false
      | .readyErr => part.length < b.remaining ∧ (r.readExact closed fuel b).2.1.avail = [] ∧
        closed = true := by
  induction fuel generalizing r b with
  | zero => omega
  | succ fuel ih =>
    unfold readExact at hfresh ⊢
    by_cases hfull : b.remaining = 0
    · rw [if_pos hfull]
      exact ⟨[], Takes.refl r, (List.append_nil _).symm, hfull.symm⟩
    · rw [if_neg hfull] at hfresh ⊢
      dsimp only at hfresh ⊢
      have hread : (r.pollRead closed b).2.1.AllFresh := by
        refine hfresh.of_calls ?_
        split
        · split
          · exact List.prefix_rfl
          · exact calls_readExact _ _ _ _
        · exact List.prefix_rfl
      obtain ⟨part, hgets⟩ := pollRead_gets (by omega) hread
      have hremaining := hgets.remaining
      obtain ⟨htakes, -, hfilled, houtcome⟩ := hgets
      cases hresult : (r.pollRead closed b).1 with
      | readyErr =>
        rw [hresult] at houtcome
        exact houtcome.elim
      | pending =>
        rw [hresult] at houtcome
        obtain ⟨rfl, hrest⟩ := htakes.of_avail_nil houtcome.1
        exact ⟨[], htakes, hfilled, by simp only [List.length_nil]; omega, hrest, houtcome.2⟩
      | readyOk =>
        rw [hresult] at houtcome hfresh
        dsimp only at hfresh ⊢
        by_cases hsame : (r.pollRead closed b).2.2.remaining = b.remaining
        · rw [if_pos hsame]
          obtain ⟨hnone, hclosed⟩ := houtcome (List.length_eq_zero_iff.1 (by omega))
          exact ⟨part, htakes, hfilled, by omega, (htakes.of_avail_nil hnone).2, hclosed⟩
        · rw [if_neg hsame] at hfresh ⊢
          obtain ⟨more, hmore, hfilled', houtcome'⟩ := ih (by omega) hfresh
          refine ⟨part ++ more, htakes.trans hmore, by rw [hfilled', hfilled, List.append_assoc],
            ?_⟩
          rw [List.length_append]
          cases hlast : ((r.pollRead closed b).2.1.readExact closed fuel
              (r.pollRead closed b).2.2).1 <;> rw [hlast] at houtcome'
          case readyOk =>
            show part.length + more.length = b.remaining
            omega
          all_goals exact ⟨by omega, houtcome'.2⟩

end BufReader

/-- What polling gives, as if on the plain bytes. -/
def BufPolled.plain : BufPolled α → Polled α
  | .pending f _ => .pending f
  | .ready res r => .ready res r.avail

/-- **Polling on a connection is polling on what was sent.** -/
lemma pollReader_spec {closed : Bool} {prog : AsyncReader α} {got taken : Bytes} {r : BufReader}
    (hwaits : Waits prog got)
    (hfresh : (pollReader closed prog got taken r).reader.AllFresh) :
    (pollReader closed prog got taken r).plain = poll closed prog got taken r.avail ∧
      (∃ part, BufReader.Takes r (pollReader closed prog got taken r).reader part) ∧
      ∀ f r', pollReader closed prog got taken r = .pending f r' →
        Waits f.prog f.got ∧ r'.avail = [] := by
  induction prog generalizing got taken r with
  | done res => exact ⟨rfl, ⟨[], .refl r⟩, fun _ _ heq => by cases heq⟩
  | ask n k ih =>
    have hle : got.length ≤ n := hwaits
    set b : ReadBuf := ⟨max n got.length, got, le_max_right _ _⟩ with hb
    have hremaining : b.remaining = n - got.length := by
      show max n got.length - got.length = _
      omega
    have hread : (r.readExact closed (n + 1) b).2.1.AllFresh := by
      refine hfresh.of_calls ?_
      unfold pollReader
      dsimp only
      split
      · split
        · exact calls_pollReader _ _ _ _ _
        · exact List.prefix_rfl
      · exact List.prefix_rfl
      · exact List.prefix_rfl
    obtain ⟨part, htakes, hfilled, houtcome⟩ :=
      BufReader.readExact_spec (by omega : b.remaining < n + 1) hread
    rw [hremaining] at houtcome
    have hfilled : (r.readExact closed (n + 1) b).2.2.filled = got ++ part := hfilled
    unfold pollReader at hfresh ⊢
    simp only [← hb, hfilled, List.drop_left] at hfresh ⊢
    rw [poll]
    -- a read that has not ended has taken all there is
    have hcut (hshort : part.length < n - got.length)
        (hnone : (r.readExact closed (n + 1) b).2.1.avail = []) :
        r.avail.take (n - got.length) = part ∧ (got ++ part).length < n := by
      refine ⟨?_, by rw [List.length_append]; omega⟩
      rw [htakes.avail, hnone, List.append_nil]
      exact List.take_of_length_le hshort.le
    cases hresult : (r.readExact closed (n + 1) b).1 with
    | readyOk =>
      rw [hresult] at houtcome
      have hpart : r.avail.take (n - got.length) = part := by
        rw [htakes.avail]
        exact List.take_left' houtcome
      have hrest : r.avail.drop (n - got.length) = (r.readExact closed (n + 1) b).2.1.avail := by
        rw [htakes.avail]
        exact List.drop_left' houtcome
      have hlen : (got ++ part).length = n := by
        rw [List.length_append]
        omega
      simp only [hresult, hlen, dite_true] at hfresh ⊢
      simp only [hpart, hrest, hlen, dite_true]
      obtain ⟨hplain, ⟨more, hmore⟩, hpending⟩ := ih ⟨got ++ part, hlen⟩ (waits_nil _) hfresh
      exact ⟨hplain, ⟨part ++ more, htakes.trans hmore⟩, hpending⟩
    | pending =>
      rw [hresult] at houtcome
      obtain ⟨hshort, hnone, hclosed⟩ := houtcome
      obtain ⟨hpart, hlen⟩ := hcut hshort hnone
      simp only [hpart]
      rw [dif_neg hlen.ne, if_neg (by rw [hclosed]; decide)]
      refine ⟨rfl, ⟨part, htakes⟩, fun f r' heq => ?_⟩
      cases heq
      exact ⟨hlen.le, hnone⟩
    | readyErr =>
      rw [hresult] at houtcome
      obtain ⟨hshort, hnone, hclosed⟩ := houtcome
      obtain ⟨hpart, hlen⟩ := hcut hshort hnone
      simp only [hpart]
      rw [dif_neg hlen.ne, if_pos hclosed]
      exact ⟨congrArg (Polled.ready _) hnone, ⟨part, htakes⟩, fun _ _ heq => by cases heq⟩

/-! ### Connections -/

/-- An encrypted connection with its worker's state, and the bytes that the client has sent, before
it encrypted them. -/
structure CryptLoop (α σ : Type) where
  reader : BufReader
  closed : Bool
  future : Future α
  status : Status
  received : Bytes
  state : σ

namespace CryptLoop

variable (p : AsyncReader α) (handle : ε → α → σ → Bool × σ)

def start (stream : CryptTcpStream) (s : σ) : CryptLoop α σ :=
  ⟨⟨[], stream, []⟩, false, .start p, .running, [], s⟩

/-- The client encrypts what it sends with its own key. -/
def arrive (clientKey : ℕ → UInt8) (c : CryptLoop α σ) (bs : Bytes) : CryptLoop α σ :=
  let sent := xorFrom clientKey c.received.length bs
  let inner : CryptTcpStream :=
    { c.reader.inner with stream := ⟨c.reader.inner.stream.incoming ++ sent⟩ }
  { c with reader := { c.reader with inner }, received := c.received ++ bs }

def turn (c : CryptLoop α σ) (env : ε) : CryptLoop α σ :=
  match pollReader c.closed c.future.prog c.future.got c.future.taken c.reader with
  | .pending future reader => { c with reader, future }
  | .ready (.ok message) reader =>
    { c with reader, future := .start p, state := (handle env message c.state).2,
             status := if (handle env message c.state).1 then .running else .dropped }
  | .ready (.error e) reader => { c with reader, status := .failed e }
  | .ready .crash reader => { c with reader, status := .failed (.panic "") }

/-- Drop the reader in progress, with all it has taken. -/
def interrupt (c : CryptLoop α σ) (status : Status) : CryptLoop α σ :=
  { c with future := .start p, status }

def step (clientKey : ℕ → UInt8) (c : CryptLoop α σ) : LoopEvent ε → CryptLoop α σ
  | .arrive bs => if c.closed then c else c.arrive clientKey bs
  | .close => { c with closed := true }
  | .turn env => match c.status with
    | .running => c.turn p handle env
    | _ => c

def run (clientKey : ℕ → UInt8) (stream : CryptTcpStream) (s : σ) (events : List (LoopEvent ε)) :
    CryptLoop α σ :=
  events.foldl (step p handle clientKey) (start p stream s)

variable {p handle} {key : ℕ → UInt8} {c : CryptLoop α σ}

lemma calls_turn (c : CryptLoop α σ) (env : ε) :
    c.reader.calls <+: (c.turn p handle env).reader.calls := by
  have hcalls := calls_pollReader c.closed c.future.prog c.future.got c.future.taken c.reader
  unfold turn
  generalize pollReader c.closed c.future.prog c.future.got c.future.taken c.reader = polled
    at hcalls
  cases polled with
  | pending future reader => exact hcalls
  | ready res reader => cases res <;> exact hcalls

variable (p handle key) in
lemma calls_step (c : CryptLoop α σ) (e : LoopEvent ε) :
    c.reader.calls <+: (c.step p handle key e).reader.calls := by
  cases e with
  | arrive bs =>
    rw [step]
    split <;> exact List.prefix_rfl
  | close => exact List.prefix_rfl
  | turn env =>
    rw [step]
    split
    · exact c.calls_turn env
    · exact List.prefix_rfl

/-- The connection as the loop on plain bytes sees it. -/
def plain (c : CryptLoop α σ) : Loop α σ :=
  ⟨c.reader.avail, c.closed, c.future, c.status, c.received, c.state⟩

/-- The cipher is where the client's is, but for what has arrived and was not read. -/
structure InStep (key : ℕ → UInt8) (c : CryptLoop α σ) : Prop where
  key : c.reader.inner.cipherRead.key = key
  total : c.reader.inner.cipherRead.pos + c.reader.inner.stream.incoming.length =
    c.received.length
  waits : Waits c.future.prog c.future.got

lemma InStep.start (p : AsyncReader α) (s : σ) (key : ℕ → UInt8) :
    (CryptLoop.start p ⟨⟨[]⟩, ⟨key, 0⟩⟩ s).InStep key :=
  ⟨rfl, rfl, waits_nil p⟩

lemma InStep.takes (h : c.InStep key) {reader : BufReader} {part : Bytes}
    (htakes : BufReader.Takes c.reader reader part) : reader.inner.cipherRead.key = key ∧
      reader.inner.cipherRead.pos + reader.inner.stream.incoming.length = c.received.length :=
  ⟨htakes.key.trans h.key, htakes.total.trans h.total⟩

/-- **One turn** on the connection is one turn on what was sent. -/
lemma InStep.turn (h : c.InStep key) {env : ε}
    (hfresh : (c.turn p handle env).reader.AllFresh) :
    (c.turn p handle env).InStep key ∧
      (c.turn p handle env).plain = c.plain.turn p handle env := by
  have hpolls : (pollReader c.closed c.future.prog c.future.got c.future.taken
      c.reader).reader.AllFresh := fun call hcall => hfresh call <| by
    unfold CryptLoop.turn
    split <;> rename_i heq <;> rw [heq] at hcall <;> exact hcall
  obtain ⟨hplain, ⟨part, htakes⟩, hpending⟩ := pollReader_spec h.waits hpolls
  have hpoll : c.future.poll c.closed c.plain.avail = _ := hplain.symm
  unfold CryptLoop.turn Loop.turn
  rw [show c.plain.future = c.future from rfl, show c.plain.closed = c.closed from rfl, hpoll]
  generalize hpolled : pollReader c.closed c.future.prog c.future.got c.future.taken c.reader =
    polled at htakes hpending
  cases polled with
  | pending future reader =>
    obtain ⟨hwaits, hnone⟩ := hpending future reader rfl
    obtain ⟨hkey, htotal⟩ := h.takes htakes
    refine ⟨⟨hkey, htotal, hwaits⟩, ?_⟩
    show (⟨reader.avail, _, _, _, _, _⟩ : Loop α σ) = ⟨[], _, _, _, _, _⟩
    rw [hnone]
    rfl
  | ready res reader =>
    obtain ⟨hkey, htotal⟩ := h.takes htakes
    cases res with
    | ok message => exact ⟨⟨hkey, htotal, waits_nil _⟩, rfl⟩
    | error e => exact ⟨⟨hkey, htotal, h.waits⟩, rfl⟩
    | crash => exact ⟨⟨hkey, htotal, h.waits⟩, rfl⟩

lemma InStep.step (h : c.InStep key) {e : LoopEvent ε}
    (hfresh : (c.step p handle key e).reader.AllFresh) :
    (c.step p handle key e).InStep key ∧
      (c.step p handle key e).plain = c.plain.step p handle e := by
  cases e with
  | arrive bs =>
    rw [CryptLoop.step, Loop.step, show c.plain.closed = c.closed from rfl]
    split
    · exact ⟨h, rfl⟩
    · obtain ⟨hkey, htotal, hwaits⟩ := h
      refine ⟨⟨hkey, ?_, hwaits⟩, ?_⟩
      · show c.reader.inner.cipherRead.pos + (_ ++ xorFrom key _ bs).length = (_ ++ bs).length
        rw [List.length_append, List.length_append, length_xorFrom, ← htotal]
        omega
      · have havail : (c.arrive key bs).reader.avail = c.reader.avail ++ bs := by
          show c.reader.buffer ++ xorFrom c.reader.inner.cipherRead.key
            c.reader.inner.cipherRead.pos (_ ++ xorFrom key _ bs) = (_ ++ _) ++ bs
          rw [xorFrom_append, ← List.append_assoc, htotal, hkey, xorFrom_xorFrom]
        show (⟨(c.arrive key bs).reader.avail, _, _, _, _, _⟩ : Loop α σ) = _
        rw [havail]
        rfl
  | close => exact ⟨⟨h.key, h.total, h.waits⟩, rfl⟩
  | turn env =>
    rw [CryptLoop.step] at hfresh ⊢
    rw [Loop.step, show c.plain.status = c.status from rfl]
    cases hstatus : c.status with
    | running =>
      rw [hstatus] at hfresh
      exact h.turn hfresh
    | dropped => exact ⟨h, rfl⟩
    | failed e => exact ⟨h, rfl⟩

lemma calls_foldl (c : CryptLoop α σ) (events : List (LoopEvent ε)) :
    c.reader.calls <+: (events.foldl (step p handle key) c).reader.calls := by
  induction events generalizing c with
  | nil => exact List.prefix_rfl
  | cons e events ih => exact (c.calls_step p handle key e).trans (ih _)

lemma InStep.foldl (h : c.InStep key) {events : List (LoopEvent ε)}
    (hfresh : (events.foldl (CryptLoop.step p handle key) c).reader.AllFresh) :
    (events.foldl (CryptLoop.step p handle key) c).plain =
      events.foldl (Loop.step p handle) c.plain := by
  induction events generalizing c with
  | nil => rfl
  | cons e events ih =>
    obtain ⟨hstep, hplain⟩ := h.step (hfresh.of_calls (calls_foldl _ events))
    rw [List.foldl_cons, List.foldl_cons, ih hstep hfresh, hplain]

/-- **A whole run**: where every call came with an empty buffer, the worker has done what it would
have done on the bytes that the client sent. -/
lemma plain_run {s : σ} {events : List (LoopEvent ε)}
    (hfresh : (run p handle key ⟨⟨[]⟩, ⟨key, 0⟩⟩ s events).reader.AllFresh) :
    (run p handle key ⟨⟨[]⟩, ⟨key, 0⟩⟩ s events).plain = Loop.run p handle s events :=
  (InStep.start p s key).foldl hfresh

end CryptLoop

end Moulars.Net.Crypt
