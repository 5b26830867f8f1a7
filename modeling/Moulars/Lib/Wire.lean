import Mathlib.Data.List.Basic
import Mathlib.Tactic.Ring

/-!
Byte streams: little-endian words, readers that consume a prefix of a stream, and writers that
append to one.

`Reads` says what a reader returns on the bytes a writer produced, `Yields` what it must have
consumed when it returns. Both are closed under sequencing.
-/

namespace Moulars.Lib.Wire

abbrev Bytes := List UInt8

/-- Why a computation did not return: the stream ended, an error was returned, or the
program panicked. -/
inductive Fault
  | eof
  | error (text : String)
  | panic (text : String)
  deriving DecidableEq

lemma uint8_all {P : UInt8 → Prop} (h : ∀ n < 256, P (UInt8.ofNat n)) (v : UInt8) : P v := by
  have hv := h v.toNat v.toNat_lt
  rwa [UInt8.ofNat_toNat] at hv

/-! ### Little-endian words -/

/-- The `k` low bytes of `n`, least significant first. -/
def le : ℕ → ℕ → Bytes
  | 0, _ => []
  | k + 1, n => UInt8.ofNat n :: le k (n / 256)

/-- The number whose bytes are given, least significant first. -/
def ofLe : Bytes → ℕ
  | [] => 0
  | b :: bs => b.toNat + 256 * ofLe bs

@[simp] lemma length_le (k n : ℕ) : (le k n).length = k := by
  induction k generalizing n with
  | zero => rfl
  | succ k ih => simp [le, ih]

lemma ofLe_le (k n : ℕ) (h : n < 256 ^ k) : ofLe (le k n) = n := by
  induction k generalizing n with
  | zero => simp at h; simp [le, ofLe, h]
  | succ k ih =>
    have hd : n / 256 < 256 ^ k := by
      rw [pow_succ] at h
      exact Nat.div_lt_of_lt_mul (by rw [Nat.mul_comm]; exact h)
    simp only [le, ofLe, ih _ hd, UInt8.toNat_ofNat']
    omega

lemma ofLe_lt (bs : Bytes) : ofLe bs < 256 ^ bs.length := by
  induction bs with
  | nil => simp [ofLe]
  | cons b bs ih =>
    have hb := b.toNat_lt
    simp only [ofLe, List.length_cons, pow_succ]
    omega

lemma le_ofLe (bs : Bytes) : le bs.length (ofLe bs) = bs := by
  induction bs with
  | nil => rfl
  | cons b bs ih =>
    have hb := b.toNat_lt
    have hq : (b.toNat + 256 * ofLe bs) / 256 = ofLe bs := by omega
    have hr : UInt8.ofNat (b.toNat + 256 * ofLe bs) = b := by
      apply UInt8.toNat_inj.mp
      rw [UInt8.toNat_ofNat']
      omega
    simp only [ofLe, List.length_cons, le, hq, hr, ih]

/-! ### Readers -/

/-- A computation that consumes a prefix of a byte stream. -/
@[ext] structure Reader (α : Type) where
  run : Bytes → Except Fault (α × Bytes)

namespace Reader

variable {α β : Type}

protected def pure (a : α) : Reader α := ⟨fun s => .ok (a, s)⟩

protected def bind (p : Reader α) (f : α → Reader β) : Reader β := ⟨fun s =>
  match p.run s with
  | .ok (a, r) => (f a).run r
  | .error e => .error e⟩

instance : Monad Reader where
  pure := Reader.pure
  bind := Reader.bind

@[simp] lemma run_pure (a : α) (s : Bytes) : (pure a : Reader α).run s = .ok (a, s) := rfl

lemma run_bind (p : Reader α) (f : α → Reader β) (s : Bytes) :
    (p >>= f).run s = match p.run s with
      | .ok (a, r) => (f a).run r
      | .error e => .error e := rfl

lemma bind_ok {p : Reader α} {f : α → Reader β} {s r : Bytes} {a : α}
    (h : p.run s = .ok (a, r)) : (p >>= f).run s = (f a).run r := by
  rw [run_bind, h]

lemma bind_error {p : Reader α} {f : α → Reader β} {s : Bytes} {e : Fault}
    (h : p.run s = .error e) : (p >>= f).run s = .error e := by
  rw [run_bind, h]

lemma id_map (p : Reader α) : id <$> p = p := by
  refine Reader.ext (funext fun s => ?_)
  show (p >>= fun a => pure (id a)).run s = p.run s
  cases hp : p.run s with
  | error e => rw [bind_error hp]
  | ok v => rw [bind_ok hp]; rfl

lemma bind_assoc {γ : Type} (p : Reader α) (f : α → Reader β) (g : β → Reader γ) :
    p >>= f >>= g = p >>= fun a => f a >>= g := by
  refine Reader.ext (funext fun s => ?_)
  cases hp : p.run s with
  | error e => rw [bind_error hp, bind_error (bind_error hp)]
  | ok v => rw [bind_ok hp, run_bind, bind_ok hp, run_bind]

instance : LawfulMonad Reader := LawfulMonad.mk' Reader Reader.id_map (fun _ _ => rfl)
  Reader.bind_assoc

lemma run_eq_ok [DecidableEq α] {p : Reader α} {s r : Bytes} {a : α}
    (h : (match p.run s with
      | .ok (b, t) => decide (b = a) && decide (t = r)
      | .error _ => false) = true) : p.run s = .ok (a, r) := by
  split at h
  · rename_i b t ht
    simp only [Bool.and_eq_true, decide_eq_true_eq] at h
    rw [ht, h.1, h.2]
  · cases h

def fail (e : Fault) : Reader α := ⟨fun _ => .error e⟩

@[simp] lemma run_fail (e : Fault) (s : Bytes) : (fail e : Reader α).run s = .error e := rfl

def exact (n : ℕ) : Reader Bytes :=
  ⟨fun s => if n ≤ s.length then .ok (s.take n, s.drop n) else .error .eof⟩

def word (k : ℕ) : Reader ℕ := do
  let bs ← exact k
  pure (ofLe bs)

def u8 : Reader UInt8 := do
  let n ← word 1
  pure (UInt8.ofNat n)

def u16 : Reader UInt16 := do
  let n ← word 2
  pure (UInt16.ofNat n)

def u32 : Reader UInt32 := do
  let n ← word 4
  pure (UInt32.ofNat n)

def u64 : Reader UInt64 := do
  let n ← word 8
  pure (UInt64.ofNat n)

def i16 : Reader Int16 := do
  let n ← u16
  pure n.toInt16

def i32 : Reader Int32 := do
  let n ← u32
  pure n.toInt32

/-- A part that is there only if `present`, and `absent` when it is not. -/
def optional (present : Prop) [Decidable present] (p : Reader α) (absent : α) : Reader α :=
  if present then p else pure absent

def left : Reader ℕ := ⟨fun s => .ok (s.length, s)⟩

lemma run_left_bind (f : ℕ → Reader α) (s : Bytes) : (left >>= f).run s = (f s.length).run s := rfl

def times (p : Reader α) : ℕ → Reader (List α)
  | 0 => pure []
  | n + 1 => do
    let a ← p
    let as ← times p n
    pure (a :: as)

end Reader

/-! ### What a reader returns on given bytes -/

variable {α β : Type}

/-- On the bytes `bs`, whatever follows them, `p` consumes exactly `bs` and returns `a`. -/
def Reads (p : Reader α) (bs : Bytes) (a : α) : Prop :=
  ∀ rest, p.run (bs ++ rest) = .ok (a, rest)

namespace Reads

lemma pure (a : α) : Reads (Pure.pure a) [] a := fun _ => rfl

variable {p : Reader α} {bs : Bytes}

lemma bind {f : α → Reader β} {cs : Bytes} {a : α} {b : β} (hp : Reads p bs a)
    (hf : Reads (f a) cs b) : Reads (p >>= f) (bs ++ cs) b := by
  intro rest
  rw [List.append_assoc, Reader.bind_ok (hp _)]
  exact hf rest

lemma unique {a b : α} (ha : Reads p bs a) (hb : Reads p bs b) :
    a = b :=
  congrArg Prod.fst (Except.ok.inj ((ha []).symm.trans (hb [])))

lemma bind_nil {f : α → Reader β} {a : α} {b : β} (hp : Reads p bs a) (hf : Reads (f a) [] b) :
    Reads (p >>= f) bs b := by
  have h := hp.bind hf
  rwa [List.append_nil] at h

lemma bind_pure {f : α → β} {a : α} (hp : Reads p bs a) :
    Reads (p >>= fun x => Pure.pure (f x)) bs (f a) :=
  hp.bind_nil (Reads.pure _)

lemma exact (bs : Bytes) {n : ℕ} (h : bs.length = n) : Reads (Reader.exact n) bs bs := by
  intro rest
  subst h
  simp [Reader.exact]

lemma word {k n : ℕ} (h : n < 256 ^ k) : Reads (Reader.word k) (le k n) n := by
  intro rest
  rw [Reader.word, Reader.bind_ok (Reads.exact (le k n) (length_le k n) rest), ofLe_le k n h]
  rfl

lemma u8 (v : UInt8) : Reads Reader.u8 (le 1 v.toNat) v := by
  have h := Reads.bind_pure (f := UInt8.ofNat)
    (Reads.word (k := 1) (n := v.toNat) (by have := v.toNat_lt; omega))
  rwa [UInt8.ofNat_toNat] at h

lemma u16 (v : UInt16) : Reads Reader.u16 (le 2 v.toNat) v := by
  have h := Reads.bind_pure (f := UInt16.ofNat)
    (Reads.word (k := 2) (n := v.toNat) (by have := v.toNat_lt; omega))
  rwa [UInt16.ofNat_toNat] at h

lemma u32 (v : UInt32) : Reads Reader.u32 (le 4 v.toNat) v := by
  have h := Reads.bind_pure (f := UInt32.ofNat)
    (Reads.word (k := 4) (n := v.toNat) (by have := v.toNat_lt; omega))
  rwa [UInt32.ofNat_toNat] at h

lemma u64 (v : UInt64) : Reads Reader.u64 (le 8 v.toNat) v := by
  have h := Reads.bind_pure (f := UInt64.ofNat)
    (Reads.word (k := 8) (n := v.toNat) (by have := v.toNat_lt; omega))
  rwa [UInt64.ofNat_toNat] at h

lemma bind_count16 {n : ℕ} {f : UInt16 → Reader β} {cs : Bytes} {b : β} (h : n < 2 ^ 16)
    (hf : ∀ c : UInt16, c.toNat = n → Reads (f c) cs b) :
    Reads (Reader.u16 >>= f) (le 2 n ++ cs) b := by
  have hn : (UInt16.ofNat n).toNat = n := UInt16.toNat_ofNat_of_lt' (by simpa using h)
  have hu := Reads.u16 (UInt16.ofNat n)
  rw [hn] at hu
  exact hu.bind (hf _ hn)

lemma bind_count32 {n : ℕ} {f : UInt32 → Reader β} {cs : Bytes} {b : β} (h : n < 2 ^ 32)
    (hf : ∀ c : UInt32, c.toNat = n → Reads (f c) cs b) :
    Reads (Reader.u32 >>= f) (le 4 n ++ cs) b := by
  have hn : (UInt32.ofNat n).toNat = n := UInt32.toNat_ofNat_of_lt' (by simpa using h)
  have hu := Reads.u32 (UInt32.ofNat n)
  rw [hn] at hu
  exact hu.bind (hf _ hn)

lemma i16 (v : Int16) : Reads Reader.i16 (le 2 v.toUInt16.toNat) v :=
  Reads.bind_pure (f := UInt16.toInt16) (Reads.u16 v.toUInt16)

lemma i32 (v : Int32) : Reads Reader.i32 (le 4 v.toUInt32.toNat) v :=
  Reads.bind_pure (f := UInt32.toInt32) (Reads.u32 v.toUInt32)

lemma times_map {enc : β → Bytes} {f : β → α} (bs : List β) (h : ∀ b ∈ bs, Reads p (enc b) (f b)) :
    Reads (Reader.times p bs.length) (bs.flatMap enc) (bs.map f) := by
  induction bs with
  | nil => exact Reads.pure _
  | cons b bs ih =>
    have hb := h b (by simp)
    have hbs := ih fun c hc => h c (by simp [hc])
    exact hb.bind (hbs.bind_pure (f := fun as => f b :: as))

lemma times {enc : α → Bytes} (as : List α) (h : ∀ a ∈ as, Reads p (enc a) a) :
    Reads (Reader.times p as.length) (as.flatMap enc) as := by
  simpa using times_map (f := id) as h

lemma optional_pos {present : Prop} [Decidable present] {absent a : α} (h : present)
    (hp : Reads p bs a) :
    Reads (Reader.optional present p absent) bs a := by
  rwa [Reader.optional, if_pos h]

lemma optional_neg {present : Prop} [Decidable present] {absent : α} (h : ¬ present) :
    Reads (Reader.optional present p absent) [] absent := by
  rw [Reader.optional, if_neg h]
  exact Reads.pure _

end Reads

/-! ### Readers that go on or fail -/

/-- Once it has consumed `bs`, `p` goes on as `q`. -/
def Leads (p : Reader α) (bs : Bytes) (q : Reader α) : Prop :=
  ∀ rest, p.run (bs ++ rest) = q.run rest

/-- On the bytes `bs`, whatever follows them, `p` fails. -/
def Ends (p : Reader α) (bs : Bytes) : Prop := ∀ rest, ∃ e, p.run (bs ++ rest) = .error e

variable {p : Reader α}

lemma Reads.leads {bs : Bytes} {a : α} (hp : Reads p bs a) (f : α → Reader β) :
    Leads (p >>= f) bs (f a) := fun rest => Reader.bind_ok (hp rest)

namespace Leads

variable {p q r : Reader α} {bs cs : Bytes}

lemma trans (hp : Leads p bs q) (hq : Leads q cs r) : Leads p (bs ++ cs) r := by
  intro rest
  rw [List.append_assoc, hp, hq]

lemma reads_iff (hp : Leads p bs q) {a : α} : Reads p (bs ++ cs) a ↔ Reads q cs a :=
  forall_congr' fun rest => by rw [List.append_assoc, hp]

lemma ends (hp : Leads p bs q) (hq : Ends q cs) : Ends p (bs ++ cs) := by
  intro rest
  rw [List.append_assoc, hp]
  exact hq rest

end Leads

namespace Ends

lemma fail (e : Fault) (bs : Bytes) : Ends (Reader.fail e : Reader α) bs := fun _ => ⟨e, rfl⟩

lemma bind {p : Reader α} {bs : Bytes} (hp : Ends p bs) (f : α → Reader β) (cs : Bytes) :
    Ends (p >>= f) (bs ++ cs) := by
  intro rest
  obtain ⟨e, he⟩ := hp (cs ++ rest)
  exact ⟨e, by rw [List.append_assoc, Reader.bind_error he]⟩

end Ends

/-! ### Readers that recurse -/

/-- A reader with room for so many levels of recursion reads `a` from `bs` once there is
enough of it. -/
def ReadsDeep (p : ℕ → Reader α) (bs : Bytes) (a : α) : Prop :=
  ∃ d, ∀ d' ≥ d, Reads (p d') bs a

namespace ReadsDeep

variable {p : ℕ → Reader α} {bs : Bytes}

lemma of_reads {p : Reader α} {a : α} (h : Reads p bs a) :
    ReadsDeep (fun _ => p) bs a :=
  ⟨0, fun _ _ => h⟩

lemma map {q : ℕ → Reader β} {cs : Bytes} {a : α} {b : β} (hp : ReadsDeep p bs a)
    (h : ∀ d, Reads (p d) bs a → Reads (q d) cs b) :
    ReadsDeep q cs b :=
  hp.imp fun _ hd d' hd' => h d' (hd d' hd')

lemma succ {a : α} (h : ReadsDeep (fun d => p (d + 1)) bs a) :
    ReadsDeep p bs a := by
  obtain ⟨d, hd⟩ := h
  refine ⟨d + 1, fun d' hd' => ?_⟩
  obtain ⟨e, rfl⟩ : ∃ e, d' = e + 1 := ⟨d' - 1, by omega⟩
  exact hd e (by omega)

lemma bind {f : ℕ → α → Reader β} {cs : Bytes} {a : α} {b : β} (hp : ReadsDeep p bs a)
    (hf : ReadsDeep (fun d => f d a) cs b) :
    ReadsDeep (fun d => p d >>= f d) (bs ++ cs) b := by
  obtain ⟨d, hd⟩ := hp
  obtain ⟨e, he⟩ := hf
  refine ⟨max d e, fun d' hd' => ?_⟩
  exact (hd d' (le_of_max_le_left hd')).bind (he d' (le_of_max_le_right hd'))

lemma bind_pure {f : α → β} {a : α} (hp : ReadsDeep p bs a) :
    ReadsDeep (fun d => p d >>= fun x => Pure.pure (f x)) bs (f a) :=
  hp.map fun _ h => h.bind_pure

end ReadsDeep

/-! ### What a reader must have consumed -/

/-- Whenever `p` returns a value, the bytes it consumed stand in relation `R` to it. -/
def Yields (p : Reader α) (R : α → Bytes → Prop) : Prop :=
  ∀ s a r, p.run s = .ok (a, r) → ∃ c, s = c ++ r ∧ R a c

namespace Yields

variable {R : α → Bytes → Prop} {p : Reader α}

lemma pure (a : α) (h : R a []) : Yields (Pure.pure a) R := by
  intro s b r e
  obtain ⟨rfl, rfl⟩ : a = b ∧ s = r := by simpa using e
  exact ⟨[], rfl, h⟩

lemma fail (e : Fault) (R : α → Bytes → Prop) : Yields (Reader.fail e) R := by
  intro s a r h
  simp at h

lemma bind {f : α → Reader β} {S : β → Bytes → Prop} (hp : Yields p R)
    (hf : ∀ a c, R a c → Yields (f a) (fun b d => S b (c ++ d))) :
    Yields (p >>= f) S := by
  intro s b r e
  rw [Reader.run_bind] at e
  split at e
  · rename_i a t ht
    obtain ⟨c, rfl, hc⟩ := hp _ _ _ ht
    obtain ⟨d, rfl, hd⟩ := hf a c hc _ _ _ e
    exact ⟨c ++ d, by rw [List.append_assoc], hd⟩
  · cases e

lemma imp {S : α → Bytes → Prop} (hp : Yields p R) (h : ∀ a c, R a c → S a c) : Yields p S := by
  intro s a r e
  obtain ⟨c, hs, hc⟩ := hp s a r e
  exact ⟨c, hs, h a c hc⟩

/-- A pair is read from the bytes of its first component, and then those of the second. -/
lemma split {q : Reader β} {enc : α → Bytes} (hy : Yields p fun a c => c = enc a)
    (hp : ∀ a, Reads p (enc a) a) {bs : Bytes} {a : α} {b : β}
    (h : Reads (do let a ← p; let b ← q; Pure.pure (a, b)) bs (a, b)) :
    ∃ rest, bs = enc a ++ rest ∧ Reads q rest b := by
  have hrun := h []
  rw [List.append_nil, Reader.run_bind] at hrun
  split at hrun
  · rename_i a' rest hfirst
    obtain ⟨c, rfl, rfl⟩ := hy _ _ _ hfirst
    have hpair := ((hp a').leads _).reads_iff.1 h
    have hq := hpair.bind_pure (f := Prod.snd)
    simp only [bind_assoc, pure_bind, bind_pure] at hq
    have heq := (Reader.bind_ok (hq [])).symm.trans (hpair [])
    cases heq
    exact ⟨rest, rfl, hq⟩
  · cases hrun

lemma exact (n : ℕ) : Yields (Reader.exact n) (fun bs c => bs = c ∧ c.length = n) := by
  intro s a r e
  simp only [Reader.exact] at e
  split at e
  · rename_i hn
    obtain ⟨rfl, rfl⟩ : s.take n = a ∧ s.drop n = r := by simpa using e
    exact ⟨s.take n, by simp, rfl, by simp [hn]⟩
  · cases e

lemma word (k : ℕ) : Yields (Reader.word k) (fun n c => c = le k n ∧ n < 256 ^ k) := by
  refine (Yields.exact k).bind ?_
  rintro bs c ⟨rfl, rfl⟩
  refine Yields.pure _ ⟨?_, ofLe_lt bs⟩
  rw [List.append_nil, le_ofLe]

lemma u8 : Yields Reader.u8 (fun v c => c = le 1 v.toNat) := by
  refine (Yields.word 1).bind ?_
  rintro n c ⟨rfl, hn⟩
  refine Yields.pure _ ?_
  rw [List.append_nil, UInt8.toNat_ofNat_of_lt' (by simpa using hn)]

lemma u16 : Yields Reader.u16 (fun v c => c = le 2 v.toNat) := by
  refine (Yields.word 2).bind ?_
  rintro n c ⟨rfl, hn⟩
  refine Yields.pure _ ?_
  rw [List.append_nil, UInt16.toNat_ofNat_of_lt' (by simpa using hn)]

lemma u32 : Yields Reader.u32 (fun v c => c = le 4 v.toNat) := by
  refine (Yields.word 4).bind ?_
  rintro n c ⟨rfl, hn⟩
  refine Yields.pure _ ?_
  rw [List.append_nil, UInt32.toNat_ofNat_of_lt' (by simpa using hn)]

lemma u64 : Yields Reader.u64 (fun v c => c = le 8 v.toNat) := by
  refine (Yields.word 8).bind ?_
  rintro n c ⟨rfl, hn⟩
  refine Yields.pure _ ?_
  rw [List.append_nil, UInt64.toNat_ofNat_of_lt' (by simpa using hn)]

lemma i16 : Yields Reader.i16 (fun v c => c = le 2 v.toUInt16.toNat) := by
  refine Yields.u16.bind ?_
  rintro n c rfl
  exact Yields.pure _ (by simp)

lemma i32 : Yields Reader.i32 (fun v c => c = le 4 v.toUInt32.toNat) := by
  refine Yields.u32.bind ?_
  rintro n c rfl
  exact Yields.pure _ (by simp)

lemma times (hp : Yields p R) (n : ℕ) :
    Yields (Reader.times p n)
      (fun as c => as.length = n ∧ ∃ cs, List.Forall₂ R as cs ∧ c = cs.flatten) := by
  induction n with
  | zero => exact Yields.pure _ ⟨rfl, [], List.Forall₂.nil, rfl⟩
  | succ n ih =>
    refine hp.bind fun a c hc => ih.bind ?_
    rintro as d ⟨hl, cs, hcs, rfl⟩
    exact Yields.pure _ ⟨by simp [hl], c :: cs, .cons hc hcs, by simp⟩

lemma times_all {P : α → Prop} (hp : Yields p fun a _ => P a) (n : ℕ) :
    Yields (Reader.times p n) fun as _ => as.length = n ∧ ∀ a ∈ as, P a := by
  refine (hp.times n).imp ?_
  rintro as c ⟨hl, cs, hcs, -⟩
  refine ⟨hl, ?_⟩
  clear hl
  induction hcs with
  | nil => simp
  | cons ha _ ih => simpa using ⟨ha, ih⟩

lemma optional {present : Prop} [Decidable present] {absent : α} {Q : α → Bytes → Prop}
    (hp : Yields p Q) (hpos : ∀ a c, present → Q a c → R a c) (hneg : ¬ present → R absent []) :
    Yields (Reader.optional present p absent) R := by
  unfold Reader.optional
  split
  · exact hp.imp fun a c h => hpos a c ‹_› h
  · exact Yields.pure _ (hneg ‹_›)

end Yields

/-! ### Two runs -/

/-- Both readers fail on the bytes, or both succeed, leave the same bytes and return related
values. -/
def Alike {α β : Type} (R : α → β → Prop) (p : Reader α) (q : Reader β) (bs : Bytes) : Prop :=
  match p.run bs, q.run bs with
  | .ok (a, rest), .ok (b, rest') => rest = rest' ∧ R a b
  | .error _, .error _ => True
  | _, _ => False

namespace Alike

variable {α β γ δ : Type} {p : Reader α} {q : Reader β} {bs : Bytes}

lemma refl (p : Reader α) (bs : Bytes) : Alike Eq p p bs := by
  rw [Alike]
  cases p.run bs with
  | ok _ => exact ⟨rfl, rfl⟩
  | error _ => trivial

variable {R : α → β → Prop}

lemma pure {a : α} {b : β} (h : R a b) :
    Alike R (Pure.pure a) (Pure.pure b) bs :=
  ⟨rfl, h⟩

lemma fail {e e' : Fault} : Alike R (Reader.fail e) (Reader.fail e') bs :=
  trivial

lemma bind {Q : α → β → Prop} {R : γ → δ → Prop} {f : α → Reader γ} {g : β → Reader δ}
    (h : Alike Q p q bs)
    (hf : ∀ a b rest, p.run bs = .ok (a, rest) → Q a b → Alike R (f a) (g b) rest) :
    Alike R (p >>= f) (q >>= g) bs := by
  rw [Alike] at h
  rw [Alike, Reader.run_bind, Reader.run_bind]
  cases hp : p.run bs with
  | ok r =>
    obtain ⟨a, rest⟩ := r
    cases hq : q.run bs with
    | ok r' =>
      obtain ⟨b, rest'⟩ := r'
      rw [hp, hq] at h
      obtain ⟨rfl, hab⟩ := h
      exact hf a b rest hp hab
    | error e =>
      rw [hp, hq] at h
      exact h.elim
  | error e =>
    cases hq : q.run bs with
    | ok r' =>
      rw [hp, hq] at h
      exact h.elim
    | error e' => trivial

lemma imp {R' : α → β → Prop} (h : Alike R p q bs) (hR : ∀ a b, R a b → R' a b) :
    Alike R' p q bs := by
  rw [Alike] at h ⊢
  split at h
  · exact ⟨h.1, hR _ _ h.2⟩
  · trivial
  · exact h.elim

lemma exists_right (h : Alike R p q bs) {a : α} {rest : Bytes} (hp : p.run bs = .ok (a, rest)) :
    ∃ b, q.run bs = .ok (b, rest) ∧ R a b := by
  rw [Alike, hp] at h
  cases hq : q.run bs with
  | ok r =>
    obtain ⟨b, rest'⟩ := r
    rw [hq] at h
    obtain ⟨rfl, hab⟩ := h
    exact ⟨b, rfl, hab⟩
  | error e =>
    rw [hq] at h
    exact h.elim

end Alike

/-! ### Buffers -/

/-- Run a reader on a buffer of its own; the stream itself is left where it is. -/
def within (buffer : Bytes) (p : Reader α) : Reader α :=
  ⟨fun s => match p.run buffer with
    | .ok (a, _) => .ok (a, s)
    | .error e => .error e⟩

lemma reads_within_run {buffer r : Bytes} {a : α} (h : p.run buffer = .ok (a, r)) :
    Reads (within buffer p) [] a := by
  intro rest
  simp [within, h]

lemma reads_within {buffer : Bytes} {a : α} (h : Reads p buffer a) :
    Reads (within buffer p) [] a :=
  reads_within_run (r := []) (by simpa using h [])

lemma yields_within {P : α → Prop} (buffer : Bytes) (h : Yields p fun a _ => P a) :
    Yields (within buffer p) fun a _ => P a := by
  intro s a r hr
  cases hp : p.run buffer with
  | error e => simp [within, hp] at hr
  | ok v =>
    obtain ⟨b, rest⟩ := v
    simp only [within, hp, Except.ok.injEq, Prod.mk.injEq] at hr
    obtain ⟨rfl, rfl⟩ := hr
    obtain ⟨_, -, hb⟩ := h _ _ _ hp
    exact ⟨[], rfl, hb⟩

/-! ### Writers -/

/-- What a writer produced: the bytes it appended, or the fault that stopped it. -/
abbrev Out := Except Fault Bytes

namespace Out

def put (bs : Bytes) : Out := .ok bs

def fail (e : Fault) : Out := .error e

protected def append : Out → Out → Out
  | .ok bs, .ok cs => .ok (bs ++ cs)
  | .ok _, .error e => .error e
  | .error e, _ => .error e

instance : Append Out := ⟨Out.append⟩

def each (w : α → Out) : List α → Out
  | [] => put []
  | a :: as => w a ++ each w as

def u8 (v : UInt8) : Out := put (le 1 v.toNat)
def u16 (v : UInt16) : Out := put (le 2 v.toNat)
def u32 (v : UInt32) : Out := put (le 4 v.toNat)
def u64 (v : UInt64) : Out := put (le 8 v.toNat)
def i16 (v : Int16) : Out := put (le 2 v.toUInt16.toNat)
def i32 (v : Int32) : Out := put (le 4 v.toUInt32.toNat)

@[simp] lemma put_append_put (bs cs : Bytes) : put bs ++ put cs = put (bs ++ cs) := rfl

lemma nil_append (w : Out) : put [] ++ w = w := by
  cases w <;> rfl

lemma append_assoc (u v w : Out) : u ++ v ++ w = u ++ (v ++ w) := by
  match u, v, w with
  | .ok bs, .ok cs, .ok ds => exact congrArg put (List.append_assoc bs cs ds)
  | .error _, _, _ | .ok _, .error _, _ | .ok _, .ok _, .error _ => rfl

lemma exists_of_isOk {w : Out} (h : w.isOk = true) : ∃ bs, w = .ok bs := by
  cases w with
  | ok bs => exact ⟨bs, rfl⟩
  | error e => cases h

lemma put_eq_ok {bs cs : Bytes} : put bs = .ok cs ↔ bs = cs :=
  ⟨Except.ok.inj, fun h => h ▸ rfl⟩

lemma append_eq_ok {v w : Out} {bs : Bytes} :
    v ++ w = .ok bs ↔ ∃ cs ds, v = .ok cs ∧ w = .ok ds ∧ bs = cs ++ ds := by
  constructor
  · intro h
    match v, w, h with
    | .ok cs, .ok ds, h => exact ⟨cs, ds, rfl, rfl, (Except.ok.inj h).symm⟩
  · rintro ⟨cs, ds, rfl, rfl, rfl⟩
    rfl

lemma put_append_eq_ok {cs bs : Bytes} {w : Out} :
    put cs ++ w = .ok bs ↔ ∃ ds, w = .ok ds ∧ bs = cs ++ ds := by
  rw [append_eq_ok]
  constructor
  · rintro ⟨_, ds, h, hw, rfl⟩
    exact ⟨ds, hw, by rw [put_eq_ok.1 h]⟩
  · rintro ⟨ds, hw, rfl⟩
    exact ⟨cs, ds, rfl, hw, rfl⟩

lemma reads_append {p : Reader α} {f : α → Reader β} {a : α} {b : β} {v w : Out}
    (hv : ∀ c, v = .ok c → Reads p c a) (hw : ∀ c, w = .ok c → Reads (f a) c b) (c : Bytes)
    (hc : v ++ w = .ok c) : Reads (p >>= f) c b := by
  obtain ⟨c₁, c₂, h₁, h₂, rfl⟩ := append_eq_ok.1 hc
  exact (hv c₁ h₁).bind (hw c₂ h₂)

lemma exists_each {w : α → Out} {as : List α} :
    (∃ bs, each w as = .ok bs) ↔ ∀ a ∈ as, ∃ bs, w a = .ok bs := by
  induction as with
  | nil => simpa using ⟨[], rfl⟩
  | cons a as ih =>
    rw [List.forall_mem_cons, ← ih]
    constructor
    · rintro ⟨bs, h⟩
      obtain ⟨cs, ds, hc, hd, -⟩ := append_eq_ok.1 h
      exact ⟨⟨cs, hc⟩, ds, hd⟩
    · rintro ⟨⟨cs, hc⟩, ds, hd⟩
      exact ⟨cs ++ ds, append_eq_ok.2 ⟨cs, ds, hc, hd, rfl⟩⟩

lemma each_eq_put {w : α → Out} {enc : α → Bytes} (as : List α)
    (h : ∀ a ∈ as, w a = put (enc a)) : each w as = put (as.flatMap enc) := by
  induction as with
  | nil => rfl
  | cons a as ih =>
    rw [each, h a (by simp), ih fun b hb => h b (by simp [hb]), put_append_put]
    simp

/-- Every fault of the writer satisfies `E`. -/
def Raises (w : Out) (E : Fault → Prop) : Prop := ∀ e, w = .error e → E e

namespace Raises

variable {E E' : Fault → Prop} {v w : Out}

lemma put (bs : Bytes) : (Out.put bs).Raises E := nofun

lemma fail {e : Fault} (h : E e) : (Out.fail e).Raises E := by
  rintro _ ⟨⟩
  exact h

lemma imp (hv : v.Raises E) (h : ∀ e, E e → E' e) : v.Raises E' := fun e he => h e (hv e he)

lemma append (hv : v.Raises E) (hw : w.Raises E) : (v ++ w).Raises E := by
  match v, w with
  | .ok _, .ok _ => exact nofun
  | .ok _, .error e => exact fun _ h => hw _ (by cases h; rfl)
  | .error e, _ => exact fun _ h => hv _ (by cases h; rfl)

lemma bind {α : Type} {x : Except Fault α} {k : α → Out} (hx : ∀ e, x = .error e → E e)
    (hk : ∀ a, x = .ok a → (k a).Raises E) : Raises (x.bind k) E := by
  cases x with
  | error e => exact fun _ h => hx _ (by cases h; rfl)
  | ok a => exact hk a rfl

lemma each {w : α → Out} {as : List α} (h : ∀ a ∈ as, (w a).Raises E) :
    (Out.each w as).Raises E := by
  induction as with
  | nil => exact put []
  | cons a as ih => exact (h a (by simp)).append (ih fun b hb => h b (by simp [hb]))

end Raises

end Out

/-! ### Formats -/

/-- The reader `p` and the writer `w` agree on the values `P`: such a value is written as
`enc` gives it and read back from these bytes, and the reader returns only such values. -/
structure Codes (p : Reader α) (w : α → Out) (P : α → Prop) (enc : α → Bytes) : Prop where
  write : ∀ a, P a → w a = Out.put (enc a)
  reads : ∀ a, P a → Reads p (enc a) a
  valid : Yields p fun a _ => P a

/-- The reader returns no value from fewer bytes than `enc` gives it. -/
def Tight (p : Reader α) (enc : α → Bytes) : Prop :=
  Yields p fun a c => (enc a).length ≤ c.length

namespace Codes

lemma of_yields {p : Reader α} {enc : α → Bytes} (hr : ∀ a, Reads p (enc a) a)
    (hy : Yields p fun a c => c = enc a) :
    Codes p (fun a => Out.put (enc a)) (fun _ => True) enc where
  write _ _ := rfl
  reads a _ := hr a
  valid := hy.imp fun _ _ _ => trivial

variable {p : Reader α} {w : α → Out} {P : α → Prop} {enc : α → Bytes}

lemma write_each (h : Codes p w P enc) (as : List α) (has : ∀ a ∈ as, P a) :
    Out.each w as = Out.put (as.flatMap enc) :=
  Out.each_eq_put as fun a ha => h.write a (has a ha)

lemma reads_times (h : Codes p w P enc) (as : List α) (has : ∀ a ∈ as, P a) :
    Reads (Reader.times p as.length) (as.flatMap enc) as :=
  Reads.times as fun a ha => h.reads a (has a ha)

lemma valid_times (h : Codes p w P enc) (n : ℕ) :
    Yields (Reader.times p n) fun as _ => as.length = n ∧ ∀ a ∈ as, P a :=
  h.valid.times_all n

end Codes

/-- Values of a format that recurses, written and read one after the other. -/
lemma ReadsDeep.times {p : ℕ → Reader α} {w : α → Out} (as : List α)
    (h : ∀ a ∈ as, ∀ c, w a = .ok c → ReadsDeep p c a) {bs : Bytes}
    (hb : Out.each w as = .ok bs) :
    ReadsDeep (fun d => Reader.times (p d) as.length) bs as := by
  induction as generalizing bs with
  | nil =>
    obtain rfl := Out.put_eq_ok.1 hb
    exact .of_reads (Reads.pure _)
  | cons a as ih =>
    obtain ⟨c, cs, hc, hcs, rfl⟩ := Out.append_eq_ok.1 hb
    exact (h a (by simp) c hc).bind (ih (fun b hb => h b (by simp [hb])) hcs).bind_pure

namespace Tight

lemma times {p : Reader α} {enc : α → Bytes} (h : Tight p enc) (n : ℕ) :
    Tight (Reader.times p n) fun as => as.flatMap enc := by
  refine (Yields.times h n).imp ?_
  rintro as c ⟨-, cs, hcs, rfl⟩
  show (as.flatMap enc).length ≤ cs.flatten.length
  induction hcs with
  | nil => simp
  | cons ha _ ih =>
    simp only [List.flatMap_cons, List.flatten_cons, List.length_append]
    omega

end Tight

end Moulars.Lib.Wire
