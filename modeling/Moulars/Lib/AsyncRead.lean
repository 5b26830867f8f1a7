import Moulars.Lib.Clients
import Moulars.Lib.Wire

/-!
Readers that can be interrupted: programs that ask for a number of bytes and wait until they have
come.

A reader in progress is a `Future`. Polling it takes the bytes that have arrived, as far as it needs
them. `Future.Resumes` says that a future stands where the reader stands after the bytes taken.
Whoever drops a future drops the bytes it has taken.
-/

namespace Moulars.Lib.AsyncRead

open Lib.Wire Lib.Clients

variable {α β : Type}

/-- What a request for `n` bytes is answered with. -/
@[reducible] def Chunk (n : ℕ) : Type := { bs : Bytes // bs.length = n }

abbrev AsyncReader (α : Type) := Prog Chunk Fault α

namespace AsyncReader

def exact (n : ℕ) : AsyncReader (Chunk n) := Prog.call n

def u8 : AsyncReader UInt8 := do
  let bs ← exact 1
  pure (UInt8.ofNat (ofLe bs.1))

def u16 : AsyncReader UInt16 := do
  let bs ← exact 2
  pure (UInt16.ofNat (ofLe bs.1))

def u32 : AsyncReader UInt32 := do
  let bs ← exact 4
  pure (UInt32.ofNat (ofLe bs.1))

def i32 : AsyncReader Int32 := do
  let n ← u32
  pure n.toInt32

/-- The same part `n` times. -/
def times (p : AsyncReader α) : ℕ → AsyncReader (List α)
  | 0 => pure []
  | n + 1 => do
    let a ← p
    let as ← times p n
    pure (a :: as)

end AsyncReader

/-! ### Reading from a whole stream -/

def toReader : AsyncReader α → Reader α
  | .done (.ok a) => pure a
  | .done (.error e) => Reader.fail e
  | .done .crash => Reader.fail (.panic "")
  | .ask n k => ⟨fun s =>
    if h : n ≤ s.length then (toReader (k ⟨s.take n, List.length_take_of_le h⟩)).run (s.drop n)
    else .error .eof⟩

lemma run_ask_of_le {n : ℕ} {k : Chunk n → AsyncReader α} {s : Bytes} (h : n ≤ s.length) :
    (toReader (.ask n k)).run s =
      (toReader (k ⟨s.take n, List.length_take_of_le h⟩)).run (s.drop n) :=
  dif_pos h

lemma run_ask_of_lt {n : ℕ} {k : Chunk n → AsyncReader α} {s : Bytes} (h : s.length < n) :
    (toReader (.ask n k)).run s = .error .eof :=
  dif_neg (by omega)

lemma run_ask_append {n : ℕ} {k : Chunk n → AsyncReader α} (bs : Chunk n) (rest : Bytes) :
    (toReader (.ask n k)).run (bs.1 ++ rest) = (toReader (k bs)).run rest := by
  obtain ⟨bs, hbs⟩ := bs
  have hle : n ≤ (bs ++ rest).length := by
    rw [List.length_append]
    omega
  rw [run_ask_of_le hle]
  simp only [List.take_left' hbs, List.drop_left' hbs]

variable {p : AsyncReader α}

/-- **What comes after does not matter**: a reader that ends has used up the first bytes of the
stream, and would have ended the same way with anything behind them. -/
lemma run_split {s r : Bytes} {a : α} (h : (toReader p).run s = .ok (a, r)) :
    ∃ used, s = used ++ r ∧ ∀ rest, (toReader p).run (used ++ rest) = .ok (a, rest) := by
  induction p generalizing s with
  | done res =>
    cases res with
    | ok b =>
      cases h
      exact ⟨[], rfl, fun _ => rfl⟩
    | error e => cases h
    | crash => cases h
  | ask n k ih =>
    by_cases hn : n ≤ s.length
    · rw [run_ask_of_le hn] at h
      obtain ⟨used, hs, hused⟩ := ih _ h
      refine ⟨s.take n ++ used, ?_, fun rest => ?_⟩
      · rw [List.append_assoc, ← hs, List.take_append_drop]
      · rw [List.append_assoc]
        exact (run_ask_append ⟨s.take n, List.length_take_of_le hn⟩ _).trans (hused rest)
    · rw [run_ask_of_lt (by omega)] at h
      cases h

/-! ### Polling -/

/-- A reader in progress: what is left of it, the bytes it has of the request it waits for, and
all the bytes it has taken. -/
structure Future (α : Type) where
  prog : AsyncReader α
  got : Bytes
  taken : Bytes

def Future.start (p : AsyncReader α) : Future α := ⟨p, [], []⟩

inductive Polled (α : Type)
  | pending (f : Future α)
  | ready (r : Result Fault α) (left : Bytes)

/-- Take what is needed of the bytes that have arrived. The end of the stream is an error. -/
def poll (closed : Bool) : AsyncReader α → Bytes → Bytes → Bytes → Polled α
  | .done r, _, _, avail => .ready r avail
  | .ask n k, got, taken, avail =>
    let part := avail.take (n - got.length)
    if h : (got ++ part).length = n then
      poll closed (k ⟨got ++ part, h⟩) [] (taken ++ part) (avail.drop (n - got.length))
    else if closed then .ready (.error .eof) []
    else .pending ⟨.ask n k, got ++ part, taken ++ part⟩

def Future.poll (closed : Bool) (f : Future α) (avail : Bytes) : Polled α :=
  AsyncRead.poll closed f.prog f.got f.taken avail

/-- Bytes are held back only for a request they do not fill. -/
def Waits : AsyncReader α → Bytes → Prop
  | .done _, got => got = []
  | .ask n _, got => got.length ≤ n

/-- The future stands where `p` stands after the bytes taken. -/
structure Future.Resumes (p : AsyncReader α) (f : Future α) : Prop where
  waits : Waits f.prog f.got
  run : ∀ rest, (toReader p).run (f.taken ++ rest) = (toReader f.prog).run (f.got ++ rest)

lemma waits_nil (p : AsyncReader α) : Waits p [] := by
  cases p with
  | done r => rfl
  | ask n k => exact Nat.zero_le n

lemma Future.Resumes.start (p : AsyncReader α) : (Future.start p).Resumes p :=
  ⟨waits_nil p, fun _ => rfl⟩

/-- `p` fails on the stream; before the stream is closed, it also fails with more behind it. -/
def Fails (p : AsyncReader α) (closed : Bool) (stream : Bytes) (e : Fault) : Prop :=
  (toReader p).run stream = .error e ∧
    (closed = false → ∀ more, (toReader p).run (stream ++ more) = .error e)

/-- What polling gives, against reading from the whole stream. -/
def Polled.Agrees (p : AsyncReader α) (closed : Bool) (stream : Bytes) : Polled α → Prop
  | .pending f => f.Resumes p ∧ f.taken = stream ∧ (toReader p).run stream = .error .eof
  | .ready (.ok a) left => (toReader p).run stream = .ok (a, left)
  | .ready (.error e) _ => Fails p closed stream e
  | .ready .crash _ => Fails p closed stream (.panic "")

/-- **Polling is reading**: a future that stands where `p` stands gives, from the bytes taken
and those that have arrived, what `p` reads from them. -/
lemma Future.Resumes.poll {f : Future α} (h : f.Resumes p) (closed : Bool) (avail : Bytes) :
    (f.poll closed avail).Agrees p closed (f.taken ++ avail) := by
  obtain ⟨prog, got, taken⟩ := f
  obtain ⟨hwaits, hrun⟩ := h
  rw [Future.poll]
  simp only at hwaits hrun ⊢
  induction prog generalizing got taken avail with
  | done r =>
    obtain rfl : got = [] := hwaits
    have hmore (more : Bytes) : (toReader p).run (taken ++ avail ++ more) =
        (toReader (.done r)).run (avail ++ more) := by
      rw [List.append_assoc]
      exact hrun _
    cases r with
    | ok a => exact hrun avail
    | error e => exact ⟨hrun avail, fun _ => hmore⟩
    | crash => exact ⟨hrun avail, fun _ => hmore⟩
  | ask n k ih =>
    have hle : got.length ≤ n := hwaits
    rw [AsyncRead.poll]
    split
    · rename_i hlen
      have hpoll := ih ⟨_, hlen⟩ (avail.drop (n - got.length)) []
        (taken ++ avail.take (n - got.length)) (waits_nil _) fun rest => by
          rw [List.append_assoc, hrun, ← List.append_assoc]
          exact run_ask_append ⟨_, hlen⟩ rest
      rwa [List.append_assoc, List.take_append_drop] at hpoll
    · -- the request takes all there is, and that is not enough
      rename_i hlen
      rw [List.length_append, List.length_take] at hlen
      have hall : avail.take (n - got.length) = avail := List.take_of_length_le (by omega)
      have hshort : (got ++ avail).length < n := by
        rw [List.length_append]
        omega
      have heof := hrun avail
      rw [run_ask_of_lt hshort] at heof
      split
      · rename_i hclosed
        exact ⟨heof, fun h => by rw [h] at hclosed; cases hclosed⟩
      · rw [hall]
        refine ⟨⟨hshort.le, fun rest => ?_⟩, rfl, heof⟩
        rw [List.append_assoc, hrun, List.append_assoc]

/-! ### Streams of messages -/

/-- All messages at the start of a stream, at most `n`. -/
def decodeUpTo (p : AsyncReader α) : ℕ → Bytes → List α
  | 0, _ => []
  | n + 1, s => match (toReader p).run s with
    | .ok (a, r) => a :: decodeUpTo p n r
    | .error _ => []

/-- All messages at the start of a stream, for a reader that takes at least one byte. -/
def decode (p : AsyncReader α) (s : Bytes) : List α := decodeUpTo p s.length s

/-- A reader that does not end without having taken a byte. -/
def Consumes (p : AsyncReader α) : Prop :=
  ∀ s a r, (toReader p).run s = .ok (a, r) → r.length < s.length

lemma consumes_ask {n : ℕ} (hn : 0 < n) (k : Chunk n → AsyncReader α) : Consumes (.ask n k) := by
  intro s a r h
  by_cases hs : n ≤ s.length
  · rw [run_ask_of_le hs] at h
    obtain ⟨used, hused, -⟩ := run_split h
    have hlen := congrArg List.length hused
    rw [List.length_drop, List.length_append] at hlen
    omega
  · rw [run_ask_of_lt (by omega)] at h
    cases h

section Decode

variable {p : AsyncReader α} (hp : Consumes p)

include hp

lemma decodeUpTo_eq {n m : ℕ} {s : Bytes} (hn : s.length ≤ n) (hm : s.length ≤ m) :
    decodeUpTo p n s = decodeUpTo p m s := by
  have hnil (m : ℕ) : decodeUpTo p m [] = [] := by
    cases m with
    | zero => rfl
    | succ m =>
      rw [decodeUpTo]
      split
      · rename_i a r hr
        exact absurd (hp _ _ _ hr) (Nat.not_lt_zero _)
      · rfl
  induction n generalizing m s with
  | zero =>
    obtain rfl := List.length_eq_zero_iff.1 (Nat.le_zero.1 hn)
    rw [hnil, hnil]
  | succ n ih =>
    cases m with
    | zero =>
      obtain rfl := List.length_eq_zero_iff.1 (Nat.le_zero.1 hm)
      rw [hnil, hnil]
    | succ m =>
      rw [decodeUpTo, decodeUpTo]
      split
      · rename_i a r hr
        have hlt := hp _ _ _ hr
        rw [ih (m := m) (by omega) (by omega)]
      · rfl

lemma decode_of_ok {s r : Bytes} {a : α} (h : (toReader p).run s = .ok (a, r)) :
    decode p s = a :: decode p r := by
  have hlt := hp _ _ _ h
  obtain ⟨n, hn⟩ : ∃ n, s.length = n + 1 := ⟨s.length - 1, by omega⟩
  rw [decode, hn, decodeUpTo, h]
  simp only
  rw [decode, decodeUpTo_eq hp (m := r.length) (by omega) (Nat.le_refl _)]

end Decode

lemma decode_of_error {s : Bytes} {e : Fault} (h : (toReader p).run s = .error e) :
    decode p s = [] := by
  rw [decode]
  cases s.length with
  | zero => rfl
  | succ n => rw [decodeUpTo, h]

/-! ### Parts that are read back -/

lemma toReader_bind (p : AsyncReader α) (f : α → AsyncReader β) :
    toReader (p >>= f) = toReader p >>= fun a => toReader (f a) := by
  refine Reader.ext (funext fun s => ?_)
  induction p generalizing s with
  | done r => cases r <;> rfl
  | ask n k ih =>
    rw [Reader.run_bind]
    show (toReader (.ask n fun r => k r >>= f)).run s = _
    by_cases hn : n ≤ s.length
    · rw [run_ask_of_le hn, run_ask_of_le hn, ih, Reader.run_bind]
    · rw [run_ask_of_lt (by omega), run_ask_of_lt (by omega)]

namespace AsyncReader

lemma reads_pure (a : α) : Reads (toReader (pure a : AsyncReader α)) [] a := fun _ => rfl

variable {p : AsyncReader α}

lemma reads_bind {f : α → AsyncReader β} {bs cs : Bytes} {a : α} {b : β}
    (hp : Reads (toReader p) bs a) (hf : Reads (toReader (f a)) cs b) :
    Reads (toReader (p >>= f)) (bs ++ cs) b := by
  rw [toReader_bind]
  exact hp.bind hf

lemma reads_bind_nil {f : α → AsyncReader β} {bs : Bytes} {a : α} {b : β}
    (hp : Reads (toReader p) bs a) (hf : Reads (toReader (f a)) [] b) :
    Reads (toReader (p >>= f)) bs b := by
  rw [toReader_bind]
  exact hp.bind_nil hf

lemma reads_bind_pure {f : α → β} {bs : Bytes} {a : α} (hp : Reads (toReader p) bs a) :
    Reads (toReader (p >>= fun a => (pure (f a) : AsyncReader β))) bs (f a) := by
  rw [toReader_bind]
  exact hp.bind_pure

lemma reads_exact {n : ℕ} (bs : Chunk n) : Reads (toReader (exact n)) bs.1 bs := fun rest =>
  run_ask_append bs rest

lemma reads_word {γ : Type} {k n : ℕ} (h : n < 256 ^ k) (conv : ℕ → γ) :
    Reads (toReader (do let bs ← exact k; pure (conv (ofLe bs.1)))) (le k n) (conv n) := by
  have hread := reads_bind_pure (f := fun bs : Chunk k => conv (ofLe bs.1))
    (reads_exact ⟨le k n, length_le k n⟩)
  simpa only [ofLe_le k n h] using hread

lemma reads_u8 (v : UInt8) : Reads (toReader u8) (le 1 v.toNat) v := by
  unfold u8
  simpa using reads_word (k := 1) v.toNat_lt UInt8.ofNat

lemma reads_u16 (v : UInt16) : Reads (toReader u16) (le 2 v.toNat) v := by
  unfold u16
  simpa using reads_word (k := 2) v.toNat_lt UInt16.ofNat

lemma reads_u32 (v : UInt32) : Reads (toReader u32) (le 4 v.toNat) v := by
  unfold u32
  simpa using reads_word (k := 4) v.toNat_lt UInt32.ofNat

lemma reads_i32 (v : Int32) : Reads (toReader i32) (le 4 v.toUInt32.toNat) v :=
  reads_bind_pure (reads_u32 v.toUInt32)

end AsyncReader

/-- If `w` writes anything, `p` reads `a` back from it. -/
def ReadsBack (p : AsyncReader α) (w : Out) (a : α) : Prop :=
  ∀ b, w = .ok b → Reads (toReader p) b a

namespace ReadsBack

open AsyncReader

variable {p : AsyncReader α}

lemma bind {f : α → AsyncReader β} {v w : Out} {a : α} {b : β} (hp : ReadsBack p v a)
    (hf : ReadsBack (f a) w b) : ReadsBack (p >>= f) (v ++ w) b := by
  intro bs hbs
  obtain ⟨cs, ds, hv, hw, rfl⟩ := Out.append_eq_ok.1 hbs
  exact reads_bind (hp cs hv) (hf ds hw)

lemma bind_pure {f : α → β} {w : Out} {a : α} (hp : ReadsBack p w a) :
    ReadsBack (p >>= fun a => (pure (f a) : AsyncReader β)) w (f a) := fun bs hbs =>
  reads_bind_pure (hp bs hbs)

lemma times {w : α → Out} (as : List α) (h : ∀ a ∈ as, ReadsBack p (w a) a) :
    ReadsBack (AsyncReader.times p as.length) (Out.each w as) as := by
  induction as with
  | nil =>
    intro bs hbs
    cases hbs
    exact reads_pure _
  | cons a as ih =>
    have hrest := ih fun a' ha' => h a' (by simp [ha'])
    exact (h a (by simp)).bind (hrest.bind_pure (f := fun as => a :: as))

lemma put {bs : Bytes} {a : α} (h : Reads (toReader p) bs a) :
    ReadsBack p (Out.put bs) a := by
  intro cs hcs
  cases hcs
  exact h

lemma u8 (v : UInt8) : ReadsBack AsyncReader.u8 (Out.u8 v) v := put (reads_u8 v)

lemma u16 (v : UInt16) : ReadsBack AsyncReader.u16 (Out.u16 v) v := put (reads_u16 v)

lemma u32 (v : UInt32) : ReadsBack AsyncReader.u32 (Out.u32 v) v := put (reads_u32 v)

lemma i32 (v : Int32) : ReadsBack AsyncReader.i32 (Out.i32 v) v := put (reads_i32 v)

end ReadsBack

end Moulars.Lib.AsyncRead
