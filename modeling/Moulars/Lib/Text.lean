import Mathlib.Data.List.Basic
import Moulars.Lib.Wire

/-!
Text encodings: UTF-16 and UTF-8, decoded with replacement of what is ill-formed.

A string is its list of Unicode scalar values.
-/

namespace Moulars.Lib.Text

open Lib.Wire

/-- U+FFFD, which stands for what could not be decoded. -/
def replacement : Char := Char.ofNat 0xFFFD

/-! ### UTF-16 -/

/-- The units of one scalar value: itself, or a surrogate pair. -/
def utf16Char (c : Char) : List UInt16 :=
  if c.toNat < 0x10000 then [UInt16.ofNat c.toNat]
  else [UInt16.ofNat (0xD800 + (c.toNat - 0x10000) / 0x400),
    UInt16.ofNat (0xDC00 + (c.toNat - 0x10000) % 0x400)]

def encodeUtf16 (s : List Char) : List UInt16 := s.flatMap utf16Char

def isHigh (u : UInt16) : Bool := 0xD800 ≤ u.toNat && u.toNat < 0xDC00
def isLow (u : UInt16) : Bool := 0xDC00 ≤ u.toNat && u.toNat < 0xE000

def pairChar (u v : UInt16) : Char :=
  Char.ofNat (0x10000 + (u.toNat - 0xD800) * 0x400 + (v.toNat - 0xDC00))

/-- Decoding that replaces every unpaired surrogate. -/
def decodeUtf16Lossy : List UInt16 → List Char
  | [] => []
  | [u] => if isHigh u || isLow u then [replacement] else [Char.ofNat u.toNat]
  | u :: v :: us =>
    if isHigh u then
      if isLow v then pairChar u v :: decodeUtf16Lossy us
      else replacement :: decodeUtf16Lossy (v :: us)
    else if isLow u then replacement :: decodeUtf16Lossy (v :: us)
    else Char.ofNat u.toNat :: decodeUtf16Lossy (v :: us)

/-- Every surrogate is half of a pair. -/
def WellFormedUtf16 : List UInt16 → Prop
  | [] => True
  | [u] => isHigh u = false ∧ isLow u = false
  | u :: v :: us =>
    if isHigh u then isLow v = true ∧ WellFormedUtf16 us
    else isLow u = false ∧ WellFormedUtf16 (v :: us)

instance decidableWellFormedUtf16 : ∀ us, Decidable (WellFormedUtf16 us)
  | [] => isTrue trivial
  | [u] => inferInstanceAs (Decidable (isHigh u = false ∧ isLow u = false))
  | u :: v :: us =>
    have := decidableWellFormedUtf16 us
    have := decidableWellFormedUtf16 (v :: us)
    inferInstanceAs (Decidable (if isHigh u then isLow v = true ∧ WellFormedUtf16 us
      else isLow u = false ∧ WellFormedUtf16 (v :: us)))

lemma char_valid (c : Char) : c.toNat < 0xD800 ∨ 0xDFFF < c.toNat ∧ c.toNat < 0x110000 :=
  c.valid

lemma decodeUtf16Lossy_bmp (c : Char) (h : c.toNat < 0x10000) (us : List UInt16) :
    decodeUtf16Lossy (UInt16.ofNat c.toNat :: us) = c :: decodeUtf16Lossy us := by
  have hv := char_valid c
  have hn : (UInt16.ofNat c.toNat).toNat = c.toNat := UInt16.toNat_ofNat_of_lt' (by simpa using h)
  have hh : isHigh (UInt16.ofNat c.toNat) = false := by
    simp only [isHigh, hn, Bool.and_eq_false_iff, decide_eq_false_iff_not]; omega
  have hl : isLow (UInt16.ofNat c.toNat) = false := by
    simp only [isLow, hn, Bool.and_eq_false_iff, decide_eq_false_iff_not]; omega
  cases us with
  | nil => simp [decodeUtf16Lossy, hh, hl, hn]
  | cons v us => simp [decodeUtf16Lossy, hh, hl, hn]

lemma decodeUtf16Lossy_pair {u v : UInt16} (hu : isHigh u = true) (hv : isLow v = true)
    (us : List UInt16) :
    decodeUtf16Lossy (u :: v :: us) = pairChar u v :: decodeUtf16Lossy us := by
  simp [decodeUtf16Lossy, hu, hv]

lemma decodeUtf16Lossy_utf16Char (c : Char) (us : List UInt16) :
    decodeUtf16Lossy (utf16Char c ++ us) = c :: decodeUtf16Lossy us := by
  unfold utf16Char
  split
  · rename_i h
    exact decodeUtf16Lossy_bmp c h us
  · rename_i h
    have hv := char_valid c
    have hhi : (UInt16.ofNat (0xD800 + (c.toNat - 0x10000) / 0x400)).toNat =
        0xD800 + (c.toNat - 0x10000) / 0x400 :=
      UInt16.toNat_ofNat_of_lt' (by rw [UInt16.size]; omega)
    have hlo : (UInt16.ofNat (0xDC00 + (c.toNat - 0x10000) % 0x400)).toNat =
        0xDC00 + (c.toNat - 0x10000) % 0x400 :=
      UInt16.toNat_ofNat_of_lt' (by rw [UInt16.size]; omega)
    rw [List.cons_append, List.cons_append, List.nil_append, decodeUtf16Lossy_pair, pairChar, hhi,
      hlo]
    · rw [show 0x10000 + (0xD800 + (c.toNat - 0x10000) / 0x400 - 0xD800) * 0x400 +
        (0xDC00 + (c.toNat - 0x10000) % 0x400 - 0xDC00) = c.toNat by omega, Char.ofNat_toNat]
    · simp only [isHigh, hhi, Bool.and_eq_true, decide_eq_true_eq]; omega
    · simp only [isLow, hlo, Bool.and_eq_true, decide_eq_true_eq]; omega

/-- **Decoding inverts encoding.** -/
lemma decodeUtf16Lossy_encodeUtf16 (s : List Char) : decodeUtf16Lossy (encodeUtf16 s) = s := by
  induction s with
  | nil => rfl
  | cons c s ih =>
    rw [encodeUtf16, List.flatMap_cons, decodeUtf16Lossy_utf16Char]
    exact congrArg (c :: ·) ih

lemma toNat_ofNat_of_not_surrogate {u : UInt16} (hh : isHigh u = false) (hl : isLow u = false) :
    (Char.ofNat u.toNat).toNat = u.toNat := by
  have hu := u.toNat_lt
  simp only [isHigh, isLow, Bool.and_eq_false_iff, decide_eq_false_iff_not] at hh hl
  have hv : u.toNat.isValidChar := by unfold Nat.isValidChar; omega
  rw [Char.ofNat, dif_pos hv]
  rfl

lemma utf16Char_single {u : UInt16} (hh : isHigh u = false) (hl : isLow u = false) :
    utf16Char (Char.ofNat u.toNat) = [u] := by
  rw [utf16Char, toNat_ofNat_of_not_surrogate hh hl, if_pos (by have := u.toNat_lt; omega),
    UInt16.ofNat_toNat]

lemma utf16Char_pair {u v : UInt16} (hu : isHigh u = true) (hv : isLow v = true) :
    utf16Char (pairChar u v) = [u, v] := by
  simp only [isHigh, isLow, Bool.and_eq_true, decide_eq_true_eq] at hu hv
  set n := 0x10000 + (u.toNat - 0xD800) * 0x400 + (v.toNat - 0xDC00) with hn
  have hvalid : n.isValidChar := by unfold Nat.isValidChar; omega
  have hto : (pairChar u v).toNat = n := by
    rw [pairChar, Char.ofNat, dif_pos hvalid]
    rfl
  rw [utf16Char, hto, if_neg (by omega)]
  have h1 : 0xD800 + (n - 0x10000) / 0x400 = u.toNat := by omega
  have h2 : 0xDC00 + (n - 0x10000) % 0x400 = v.toNat := by omega
  rw [h1, h2, UInt16.ofNat_toNat, UInt16.ofNat_toNat]

/-- **Encoding inverts decoding** on units whose surrogates are paired. -/
lemma encodeUtf16_decodeUtf16Lossy (us : List UInt16) (h : WellFormedUtf16 us) :
    encodeUtf16 (decodeUtf16Lossy us) = us := by
  induction us using decodeUtf16Lossy.induct with
  | case1 => rfl
  | case2 u hs =>
    simp [WellFormedUtf16] at h
    simp [h] at hs
  | case3 u hs =>
    simp only [WellFormedUtf16] at h
    simp [decodeUtf16Lossy, encodeUtf16, h, utf16Char_single h.1 h.2]
  | case4 u v us hu hv ih =>
    simp only [WellFormedUtf16, hu, if_true] at h
    rw [decodeUtf16Lossy_pair hu hv, encodeUtf16, List.flatMap_cons, utf16Char_pair hu hv]
    simpa [encodeUtf16] using ih h.2
  | case5 u v us hu hv ih =>
    simp only [WellFormedUtf16, hu, if_true] at h
    exact absurd h.1 hv
  | case6 u v us hu hl ih =>
    simp only [WellFormedUtf16, hu] at h
    simp [hl] at h
  | case7 u v us hu hl ih =>
    have hh : isHigh u = false := by simpa using hu
    have hl' : isLow u = false := by simpa using hl
    simp only [WellFormedUtf16, hh] at h
    have hdec : decodeUtf16Lossy (u :: v :: us) =
        Char.ofNat u.toNat :: decodeUtf16Lossy (v :: us) := by
      simp [decodeUtf16Lossy, hh, hl']
    rw [hdec, encodeUtf16, List.flatMap_cons, utf16Char_single hh hl']
    simpa [encodeUtf16] using ih h.2

/-! ### Units on the wire -/

def units (n : ℕ) : Reader (List UInt16) := Reader.times Reader.u16 n

def unitBytes (us : List UInt16) : Bytes := us.flatMap fun u => le 2 u.toNat

lemma reads_units (us : List UInt16) : Reads (units us.length) (unitBytes us) us :=
  Reads.times us fun u _ => Reads.u16 u

lemma yields_units (n : ℕ) :
    Yields (units n) (fun us c => us.length = n ∧ c = unitBytes us) := by
  refine (Yields.times Yields.u16 n).imp ?_
  rintro us c ⟨hl, cs, hcs, rfl⟩
  refine ⟨hl, ?_⟩
  clear hl
  induction hcs with
  | nil => rfl
  | cons h _ ih => simp [unitBytes, h, ih]

/-- The units before the next nul, which is dropped. -/
def splitNul : Bytes → Except Fault (List UInt16 × Bytes)
  | a :: b :: s =>
    let u := UInt16.ofNat (ofLe [a, b])
    if u = 0 then .ok ([], s) else (splitNul s).map fun (us, r) => (u :: us, r)
  | _ => .error .eof

def unitsZ : Reader (List UInt16) := ⟨splitNul⟩

lemma splitNul_cons (u : UInt16) (hu : u ≠ 0) (s : Bytes) :
    splitNul (le 2 u.toNat ++ s) = (splitNul s).map fun (us, r) => (u :: us, r) := by
  have hof : UInt16.ofNat (ofLe (le 2 u.toNat)) = u := by
    rw [ofLe_le 2 _ (by have := u.toNat_lt; omega), UInt16.ofNat_toNat]
  rw [le, le, le] at hof ⊢
  rw [List.cons_append, List.cons_append, splitNul, hof, if_neg hu]
  rfl

lemma reads_unitsZ {us : List UInt16} (h : 0 ∉ us) : Reads unitsZ (unitBytes us ++ le 2 0) us := by
  intro rest
  show splitNul _ = _
  induction us with
  | nil => rfl
  | cons u us ih =>
    rw [List.mem_cons, not_or] at h
    have hsplit : unitBytes (u :: us) ++ le 2 0 ++ rest =
        le 2 u.toNat ++ (unitBytes us ++ le 2 0 ++ rest) := by simp [unitBytes]
    rw [hsplit, splitNul_cons u (Ne.symm h.1), ih h.2]
    rfl

lemma yields_unitsZ : Yields unitsZ fun us c => c.length = 2 * us.length + 2 := by
  have hsplit : ∀ s us r, splitNul s = .ok (us, r) →
      ∃ c, s = c ++ r ∧ c.length = 2 * us.length + 2 := by
    intro s
    induction s using splitNul.induct with
    | case1 a b s u hu =>
      intro us r h
      simp only [splitNul, u, hu, if_true] at h
      cases h
      exact ⟨[a, b], rfl, rfl⟩
    | case2 a b s u hu ih =>
      intro us r h
      simp only [splitNul, u, hu, if_false] at h
      cases hs : splitNul s with
      | error e =>
        rw [hs] at h
        cases h
      | ok v =>
        rw [hs] at h
        cases h
        obtain ⟨c, hc, hlen⟩ := ih v.1 v.2 hs
        refine ⟨a :: b :: c, by rw [hc]; rfl, ?_⟩
        simp only [List.length_cons, hlen]
        omega
    | case3 s hs =>
      intro us r h
      rw [splitNul] at h
      · cases h
      · exact hs
  exact hsplit

lemma notMem_of_splitNul :
    ∀ (s r : Bytes) (us : List UInt16), splitNul s = .ok (us, r) → 0 ∉ us := by
  intro s
  induction s using splitNul.induct with
  | case1 a b s u hu =>
    intro r us h
    simp only [splitNul, u, hu, if_true] at h
    cases h
    exact List.not_mem_nil
  | case2 a b s u hu ih =>
    intro r us h
    simp only [splitNul, u, hu, if_false] at h
    cases hs : splitNul s with
    | error e =>
      rw [hs] at h
      cases h
    | ok v =>
      rw [hs] at h
      cases h
      rw [List.mem_cons, not_or]
      exact ⟨Ne.symm hu, ih v.2 v.1 hs⟩
  | case3 s hs =>
    intro r us h
    rw [splitNul] at h
    · cases h
    · exact hs

lemma yields_unitsZ_notMem : Yields unitsZ fun us _ => 0 ∉ us := by
  intro s us r h
  obtain ⟨c, hc, -⟩ := yields_unitsZ s us r h
  exact ⟨c, hc, notMem_of_splitNul s r us h⟩

def NulFree (s : String) : Prop := ∀ c ∈ s.toList, c.toNat ≠ 0

instance (s : String) : Decidable (NulFree s) :=
  List.decidableBAll (fun c : Char => c.toNat ≠ 0) s.toList

lemma notMem_encodeUtf16 {s : String} (h : NulFree s) : 0 ∉ encodeUtf16 s.toList := by
  have hzero {n : ℕ} (hn : n < 2 ^ 16) (h0 : 0 = UInt16.ofNat n) : n = 0 := by
    have := congrArg UInt16.toNat h0
    rw [UInt16.toNat_ofNat_of_lt' (by simpa using hn)] at this
    exact this.symm
  intro hmem
  obtain ⟨c, hc, hu⟩ := List.mem_flatMap.1 hmem
  have hne := h c hc
  have hv := char_valid c
  rw [utf16Char] at hu
  split at hu
  · exact hne (hzero (by omega) (List.mem_singleton.1 hu))
  · -- surrogates are not nul either
    rcases List.mem_pair.1 hu with hu | hu
    · exact absurd (hzero (by omega) hu) (by omega)
    · exact absurd (hzero (by omega) hu) (by omega)

lemma nulFree_decodeUtf16Lossy {us : List UInt16} (h : 0 ∉ us) :
    NulFree (String.ofList (decodeUtf16Lossy us)) := by
  have hreplacement : replacement.toNat ≠ 0 := by decide
  have hunit {u : UInt16} (hu : u ≠ 0) (hh : isHigh u = false) (hl : isLow u = false) :
      (Char.ofNat u.toNat).toNat ≠ 0 := by
    rw [toNat_ofNat_of_not_surrogate hh hl]
    exact fun h0 => hu (UInt16.toNat_inj.1 h0)
  have hpair {u v : UInt16} (hu : isHigh u = true) (hv : isLow v = true) :
      (pairChar u v).toNat ≠ 0 := by
    intro h0
    have hunits := utf16Char_pair hu hv
    rw [utf16Char, if_pos (by omega)] at hunits
    exact absurd (congrArg List.length hunits) (by simp)
  rw [NulFree, String.toList_ofList]
  induction us using decodeUtf16Lossy.induct with
  | case1 => simp [decodeUtf16Lossy]
  | case2 u hs => simpa [decodeUtf16Lossy, hs] using hreplacement
  | case3 u hs =>
    rw [Bool.or_eq_true, not_or, Bool.not_eq_true, Bool.not_eq_true] at hs
    have hu : u ≠ 0 := fun h0 => h (by simp [h0])
    simpa [decodeUtf16Lossy, hs.1, hs.2] using hunit hu hs.1 hs.2
  | case4 u v us hu hv ih =>
    rw [decodeUtf16Lossy_pair hu hv]
    exact List.forall_mem_cons.2 ⟨hpair hu hv, ih fun hmem => h (by simp [hmem])⟩
  | case5 u v us hu hv ih =>
    simp only [decodeUtf16Lossy, hu, hv, if_true, Bool.false_eq_true, if_false]
    exact List.forall_mem_cons.2 ⟨hreplacement, ih fun hmem => h (List.mem_cons_of_mem _ hmem)⟩
  | case6 u v us hu hl ih =>
    simp only [decodeUtf16Lossy, hu, hl, if_true, Bool.false_eq_true, if_false]
    exact List.forall_mem_cons.2 ⟨hreplacement, ih fun hmem => h (List.mem_cons_of_mem _ hmem)⟩
  | case7 u v us hu hl ih =>
    rw [Bool.not_eq_true] at hu hl
    simp only [decodeUtf16Lossy, hu, hl, Bool.false_eq_true, if_false]
    have hne : u ≠ 0 := fun h0 => h (by simp [h0])
    exact List.forall_mem_cons.2 ⟨hunit hne hu hl, ih fun hmem => h (List.mem_cons_of_mem _ hmem)⟩

/-! ### UTF-8 -/

def encodeUtf8 (cs : List Char) : Bytes := cs.flatMap String.utf8EncodeChar

def isCont (b : UInt8) : Bool := 0x80 ≤ b.toNat && b.toNat ≤ 0xBF

def isSecond3 (a b : UInt8) : Bool :=
  if a.toNat = 0xE0 then 0xA0 ≤ b.toNat && b.toNat ≤ 0xBF
  else if a.toNat = 0xED then 0x80 ≤ b.toNat && b.toNat ≤ 0x9F
  else isCont b

def isSecond4 (a b : UInt8) : Bool :=
  if a.toNat = 0xF0 then 0x90 ≤ b.toNat && b.toNat ≤ 0xBF
  else if a.toNat = 0xF4 then 0x80 ≤ b.toNat && b.toNat ≤ 0x8F
  else isCont b

/-- One scalar value and the bytes after it. An ill-formed sequence is replaced as far as it
could have been the start of a well-formed one. -/
def utf8Step (a : UInt8) (r : Bytes) : Char × Bytes :=
  if a.toNat < 0x80 then (Char.ofNat a.toNat, r)
  else if 0xC2 ≤ a.toNat ∧ a.toNat ≤ 0xDF then
    match r with
    | b :: r => if isCont b then (Char.ofNat (a.toNat % 32 * 64 + b.toNat % 64), r)
      else (replacement, b :: r)
    | [] => (replacement, [])
  else if 0xE0 ≤ a.toNat ∧ a.toNat ≤ 0xEF then
    match r with
    | b :: c :: r =>
      if isSecond3 a b then
        if isCont c then
          (Char.ofNat (a.toNat % 16 * 4096 + b.toNat % 64 * 64 + c.toNat % 64), r)
        else (replacement, c :: r)
      else (replacement, b :: c :: r)
    | [b] => if isSecond3 a b then (replacement, []) else (replacement, [b])
    | [] => (replacement, [])
  else if 0xF0 ≤ a.toNat ∧ a.toNat ≤ 0xF4 then
    match r with
    | b :: c :: d :: r =>
      if isSecond4 a b then
        if isCont c then
          if isCont d then
            (Char.ofNat (a.toNat % 8 * 262144 + b.toNat % 64 * 4096 + c.toNat % 64 * 64
              + d.toNat % 64), r)
          else (replacement, d :: r)
        else (replacement, c :: d :: r)
      else (replacement, b :: c :: d :: r)
    | [b, c] =>
      if isSecond4 a b then
        if isCont c then (replacement, []) else (replacement, [c])
      else (replacement, [b, c])
    | [b] => if isSecond4 a b then (replacement, []) else (replacement, [b])
    | [] => (replacement, [])
  else (replacement, r)

/-- At most `n` scalar values from the start of `bs`. -/
def utf8Take : ℕ → Bytes → List Char
  | 0, _ => []
  | _, [] => []
  | n + 1, a :: r => (utf8Step a r).1 :: utf8Take n (utf8Step a r).2

def fromUtf8Lossy (bs : Bytes) : List Char := utf8Take bs.length bs

/-- The bytes of a character, by their number. The second byte of three or four bars overlong
sequences and surrogates. -/
inductive Utf8Bytes (c : Char) : Bytes → Prop
  | one {a : UInt8} (ha : a.toNat < 0x80) (hc : a.toNat = c.toNat) : Utf8Bytes c [a]
  | two {a b : UInt8} (ha : 0xC2 ≤ a.toNat ∧ a.toNat ≤ 0xDF) (hb : isCont b = true)
      (hc : a.toNat % 32 * 64 + b.toNat % 64 = c.toNat) : Utf8Bytes c [a, b]
  | three {a b d : UInt8} (ha : 0xE0 ≤ a.toNat ∧ a.toNat ≤ 0xEF) (hb : isSecond3 a b = true)
      (hd : isCont d = true)
      (hc : a.toNat % 16 * 4096 + b.toNat % 64 * 64 + d.toNat % 64 = c.toNat) :
      Utf8Bytes c [a, b, d]
  | four {a b d e : UInt8} (ha : 0xF0 ≤ a.toNat ∧ a.toNat ≤ 0xF4) (hb : isSecond4 a b = true)
      (hd : isCont d = true) (he : isCont e = true)
      (hc : a.toNat % 8 * 262144 + b.toNat % 64 * 4096 + d.toNat % 64 * 64 + e.toNat % 64 =
        c.toNat) : Utf8Bytes c [a, b, d, e]

lemma utf8Bytes_utf8EncodeChar (c : Char) : Utf8Bytes c (String.utf8EncodeChar c) := by
  have hv := char_valid c
  have hc : c.val.toNat = c.toNat := rfl
  have hto : ∀ n < 256, (UInt8.ofNat n).toNat = n := fun n hn =>
    UInt8.toNat_ofNat_of_lt' (by rw [UInt8.size]; exact hn)
  have hcont : ∀ n < 64, isCont (UInt8.ofNat (n + 128)) = true := fun n hn => by
    simp only [isCont, hto (n + 128) (by omega), Bool.and_eq_true, decide_eq_true_eq]
    omega
  simp only [String.utf8EncodeChar, hc]
  split
  · have ha := hto c.toNat (by omega)
    exact .one (by omega) ha
  · split
    · have ha := hto (c.toNat / 64 % 32 + 192) (by omega)
      have hb := hto (c.toNat % 64 + 128) (by omega)
      exact .two (by omega) (hcont _ (by omega)) (by omega)
    · split
      · have ha := hto (c.toNat / 4096 % 16 + 224) (by omega)
        have hb := hto (c.toNat / 64 % 64 + 128) (by omega)
        have hd := hto (c.toNat % 64 + 128) (by omega)
        refine .three (by omega) ?_ (hcont _ (by omega)) (by omega)
        simp only [isSecond3, isCont, ha, hb]
        split
        · simp only [Bool.and_eq_true, decide_eq_true_eq]; omega
        · split <;> simp only [Bool.and_eq_true, decide_eq_true_eq] <;> omega
      · have ha := hto (c.toNat / 262144 % 8 + 240) (by omega)
        have hb := hto (c.toNat / 4096 % 64 + 128) (by omega)
        have hd := hto (c.toNat / 64 % 64 + 128) (by omega)
        have he := hto (c.toNat % 64 + 128) (by omega)
        refine .four (by omega) ?_ (hcont _ (by omega)) (hcont _ (by omega)) (by omega)
        simp only [isSecond4, isCont, ha, hb]
        split
        · simp only [Bool.and_eq_true, decide_eq_true_eq]; omega
        · split <;> simp only [Bool.and_eq_true, decide_eq_true_eq] <;> omega

lemma Utf8Bytes.step {c : Char} {bs : Bytes} (h : Utf8Bytes c bs) :
    ∃ a t, bs = a :: t ∧ ∀ rest, utf8Step a (t ++ rest) = (c, rest) := by
  cases h with
  | one ha hc =>
    refine ⟨_, [], rfl, fun rest => ?_⟩
    rw [utf8Step.eq_def, if_pos ha, hc, Char.ofNat_toNat]
    rfl
  | two ha hb hc =>
    refine ⟨_, _, rfl, fun rest => ?_⟩
    rw [List.cons_append, List.nil_append, utf8Step, if_neg (by omega), if_pos ha]
    simp only [hb, if_true, hc, Char.ofNat_toNat]
  | three ha hb hd hc =>
    refine ⟨_, _, rfl, fun rest => ?_⟩
    simp only [List.cons_append, List.nil_append]
    rw [utf8Step.eq_def, if_neg (by omega), if_neg (by omega), if_pos ha]
    simp only [hb, hd, if_true, hc, Char.ofNat_toNat]
  | four ha hb hd he hc =>
    refine ⟨_, _, rfl, fun rest => ?_⟩
    simp only [List.cons_append, List.nil_append]
    rw [utf8Step.eq_def, if_neg (by omega), if_neg (by omega), if_neg (by omega), if_pos ha]
    simp only [hb, hd, he, if_true, hc, Char.ofNat_toNat]

lemma utf8Step_utf8EncodeChar (c : Char) (rest : Bytes) :
    ∃ a t, String.utf8EncodeChar c = a :: t ∧ utf8Step a (t ++ rest) = (c, rest) := by
  obtain ⟨a, t, hc, hstep⟩ := (utf8Bytes_utf8EncodeChar c).step
  exact ⟨a, t, hc, hstep rest⟩

lemma utf8Take_encodeUtf8 (cs : List Char) (n : ℕ) (h : cs.length ≤ n) :
    utf8Take n (encodeUtf8 cs) = cs := by
  induction cs generalizing n with
  | nil => cases n <;> rfl
  | cons c cs ih =>
    obtain ⟨n, rfl⟩ : ∃ k, n = k + 1 := ⟨n - 1, by simp at h; omega⟩
    obtain ⟨a, t, hc, hstep⟩ := utf8Step_utf8EncodeChar c (encodeUtf8 cs)
    rw [encodeUtf8, List.flatMap_cons, ← encodeUtf8, hc, List.cons_append, utf8Take, hstep,
      ih n (by simpa using h)]

lemma length_le_encodeUtf8 (cs : List Char) : cs.length ≤ (encodeUtf8 cs).length := by
  induction cs with
  | nil => simp
  | cons c cs ih =>
    obtain ⟨a, t, hc, -⟩ := utf8Step_utf8EncodeChar c []
    rw [encodeUtf8, List.flatMap_cons, ← encodeUtf8, hc]
    simp only [List.length_cons, List.length_append]
    omega

/-- **Decoding inverts encoding.** -/
lemma fromUtf8Lossy_encodeUtf8 (cs : List Char) : fromUtf8Lossy (encodeUtf8 cs) = cs :=
  utf8Take_encodeUtf8 cs _ (length_le_encodeUtf8 cs)

end Moulars.Lib.Text
