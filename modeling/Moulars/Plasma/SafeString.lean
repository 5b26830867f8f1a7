import Moulars.Lib.Text

/-!
Safe strings: strings written with their length and with every bit inverted.

The reader accepts both inverted and plain text and tells them apart by the top bit of the
first unit, so what it returns always starts below 0x80 (or 0x8000).
-/

namespace Moulars.Plasma

open Lib.Wire Lib.Text

inductive StringFormat
  | latin1 | utf8 | utf16
  deriving DecidableEq

/-- The length of a safe string; the old format has a further word, which is discarded. -/
def readSafeLength : Reader ℕ := do
  let length ← Reader.u16
  if length.toNat / 0x1000 = 0 then do
    let _ ← Reader.u16
    pure (length.toNat % 0x1000)
  else pure (length.toNat % 0x1000)

/-- Invert all bytes if the first has its top bit set. -/
def uninvert8 : Bytes → Bytes
  | [] => []
  | b :: bs => if 0x80 ≤ b.toNat then (b :: bs).map (~~~ ·) else b :: bs

def uninvert16 : List UInt16 → List UInt16
  | [] => []
  | u :: us => if 0x8000 ≤ u.toNat then (u :: us).map (~~~ ·) else u :: us

def readSafeBytes : Reader Bytes := do
  let length ← readSafeLength
  let buffer ← Reader.exact length
  pure (uninvert8 buffer)

def readSafeStr : StringFormat → Reader String
  | .utf16 => do
    let length ← readSafeLength
    let buffer ← units length
    let _ ← Reader.u16
    pure (String.ofList (decodeUtf16Lossy (uninvert16 buffer)))
  | .utf8 => do
    let buffer ← readSafeBytes
    pure (String.ofList (fromUtf8Lossy buffer))
  | .latin1 => do
    let buffer ← readSafeBytes
    pure (String.ofList (buffer.map fun b => Char.ofNat b.toNat))

/-- The byte of a character in Latin-1, a question mark where there is none. -/
def latin1Byte (c : Char) : UInt8 := if c.toNat < 0x100 then UInt8.ofNat c.toNat else 63

/-- The length word and the body, when the length fits in twelve bits. -/
def writeSafe (length : ℕ) (body : Bytes) : Out :=
  if length > 0x0FFF then
    Out.fail (.error s!"String too large for SafeString encoding ({length})")
  else Out.put (le 2 (0xF000 + length)) ++ Out.put body

def writeSafeStr (value : String) : StringFormat → Out
  | .utf16 =>
    let buffer := encodeUtf16 value.toList
    writeSafe buffer.length (unitBytes (buffer.map (~~~ ·)) ++ le 2 0)
  | .utf8 =>
    let buffer := (encodeUtf8 value.toList).map (~~~ ·)
    writeSafe buffer.length buffer
  | .latin1 =>
    let buffer := value.toList.map fun c => ~~~ latin1Byte c
    writeSafe buffer.length buffer

/-! ### Latin-1 -/

/-- The strings the Latin-1 reader returns. -/
structure Latin1Safe (s : String) : Prop where
  latin1 : ∀ c ∈ s.toList, c.toNat < 0x100
  length : s.toList.length ≤ 0x0FFF
  first : ∀ c ∈ s.toList.head?, c.toNat < 0x80

def safeBytes (s : String) : Bytes :=
  le 2 (0xF000 + s.toList.length) ++ s.toList.map fun c => ~~~ latin1Byte c

lemma length_safeBytes (s : String) : (safeBytes s).length = 2 + s.toList.length := by
  simp [safeBytes]

lemma latin1Safe_empty : Latin1Safe "" := ⟨by simp, by simp, by simp⟩

lemma latin1Safe_of_ascii {s : String} (h : ∀ c ∈ s.toList, c.toNat < 0x80)
    (hl : s.toList.length ≤ 0x0FFF) : Latin1Safe s :=
  ⟨fun c hc => by have := h c hc; omega, hl, fun c hc => h c (List.mem_of_mem_head? hc)⟩

lemma writeSafeStr_latin1 {s : String} (h : s.toList.length ≤ 0x0FFF) :
    writeSafeStr s .latin1 = Out.put (safeBytes s) := by
  simp only [writeSafeStr, writeSafe, List.length_map, if_neg (Nat.not_lt.mpr h),
    Out.put_append_put, safeBytes]

lemma toNat_not (b : UInt8) : (~~~ b).toNat = 255 - b.toNat := by
  rw [UInt8.toNat_not]
  rfl

lemma toNat_latin1Byte {c : Char} (h : c.toNat < 0x100) : (latin1Byte c).toNat = c.toNat := by
  rw [latin1Byte, if_pos h]
  exact UInt8.toNat_ofNat_of_lt' (by rw [UInt8.size]; exact h)

/-- Text that starts with the top bit clear starts with it set once inverted, so the reader
inverts it back. -/
lemma uninvert8_not {bs : Bytes} (h : ∀ b ∈ bs.head?, b.toNat < 0x80) :
    uninvert8 (bs.map (~~~ ·)) = bs := by
  cases bs with
  | nil => rfl
  | cons b bs =>
    have hb : b.toNat < 0x80 := h b rfl
    have htop : 0x80 ≤ (~~~ b).toNat := by
      rw [toNat_not]
      omega
    rw [List.map_cons, uninvert8, if_pos htop]
    simp [Function.comp_def]

lemma uninvert8_inverted {s : String} (h : Latin1Safe s) :
    uninvert8 (s.toList.map fun c => ~~~ latin1Byte c) = s.toList.map latin1Byte := by
  have hmap : (s.toList.map fun c => ~~~ latin1Byte c) =
      (s.toList.map latin1Byte).map (~~~ ·) := by
    rw [List.map_map]
    rfl
  rw [hmap]
  refine uninvert8_not fun b hb => ?_
  rw [List.head?_map, Option.mem_map] at hb
  obtain ⟨c, hc, rfl⟩ := hb
  rw [toNat_latin1Byte (h.latin1 c (List.mem_of_mem_head? hc))]
  exact h.first c hc

lemma map_latin1Byte {cs : List Char} (h : ∀ c ∈ cs, c.toNat < 0x100) :
    (cs.map latin1Byte).map (fun b => Char.ofNat b.toNat) = cs := by
  rw [List.map_map]
  refine (List.map_congr_left fun c hc => ?_).trans (List.map_id _)
  simp only [Function.comp, toNat_latin1Byte (h c hc), Char.ofNat_toNat, id]

lemma reads_safeLength {n : ℕ} (h : n ≤ 0x0FFF) : Reads readSafeLength (le 2 (0xF000 + n)) n := by
  have hn : (UInt16.ofNat (0xF000 + n)).toNat = 0xF000 + n :=
    UInt16.toNat_ofNat_of_lt' (by rw [UInt16.size]; omega)
  have hw := Reads.u16 (UInt16.ofNat (0xF000 + n))
  rw [hn] at hw
  intro rest
  rw [readSafeLength, Reader.bind_ok (hw rest), hn, if_neg (by omega),
    show (0xF000 + n) % 0x1000 = n by omega]
  rfl

lemma yields_safeLength : Yields readSafeLength fun n c => n ≤ 0x0FFF ∧ 2 ≤ c.length := by
  refine Yields.u16.bind ?_
  rintro length c rfl
  have hmod : length.toNat % 0x1000 ≤ 0x0FFF := by omega
  split
  · refine Yields.u16.bind ?_
    rintro _ c rfl
    exact Yields.pure _ ⟨hmod, by simp⟩
  · exact Yields.pure _ ⟨hmod, by simp⟩

lemma reads_safeStr {s : String} (h : Latin1Safe s) :
    Reads (readSafeStr .latin1) (safeBytes s) s := by
  have hbody : Reads (Reader.exact s.toList.length) (s.toList.map fun c => ~~~ latin1Byte c) _ :=
    Reads.exact _ (by simp)
  have hbytes : Reads readSafeBytes (safeBytes s) (s.toList.map latin1Byte) := by
    rw [← uninvert8_inverted h]
    exact (reads_safeLength h.length).bind hbody.bind_pure
  have hall := hbytes.bind_pure (f := fun bs => String.ofList (bs.map fun b => Char.ofNat b.toNat))
  rw [map_latin1Byte h.latin1, String.ofList_toList] at hall
  exact hall

lemma length_uninvert8 (bs : Bytes) : (uninvert8 bs).length = bs.length := by
  cases bs with
  | nil => rfl
  | cons b bs => simp only [uninvert8]; split <;> simp

lemma uninvert8_head (bs : Bytes) : ∀ b ∈ (uninvert8 bs).head?, b.toNat < 0x80 := by
  cases bs with
  | nil => simp [uninvert8]
  | cons b bs =>
    simp only [uninvert8]
    split
    · have := b.toNat_lt
      simp
      omega
    · simp
      omega

lemma toNat_ofNat_byte (b : UInt8) : (Char.ofNat b.toNat).toNat = b.toNat := by
  have hb := b.toNat_lt
  have hv : b.toNat.isValidChar := by unfold Nat.isValidChar; omega
  rw [Char.ofNat, dif_pos hv]
  rfl

lemma yields_safeStr : Yields (readSafeStr .latin1)
    fun s c => Latin1Safe s ∧ (safeBytes s).length ≤ c.length := by
  refine Yields.bind (R := fun bs c => bs.length ≤ 0x0FFF ∧ 2 + bs.length ≤ c.length ∧
    ∀ b ∈ bs.head?, b.toNat < 0x80) ?_ ?_
  · refine yields_safeLength.bind ?_
    rintro n c ⟨hn, hc⟩
    refine (Yields.exact n).bind ?_
    rintro bs d ⟨rfl, rfl⟩
    refine Yields.pure _ ⟨?_, ?_, uninvert8_head bs⟩
    · rw [length_uninvert8]
      exact hn
    · rw [length_uninvert8, List.append_nil, List.length_append]
      omega
  · rintro bs c ⟨hl, hc, hhead⟩
    refine Yields.pure _ ⟨⟨?_, ?_, ?_⟩, ?_⟩
    · intro ch hch
      obtain ⟨b, -, rfl⟩ : ∃ b ∈ bs, Char.ofNat b.toNat = ch := by simpa using hch
      rw [toNat_ofNat_byte]
      exact b.toNat_lt
    · simpa using hl
    · intro ch hch
      cases bs with
      | nil => simp at hch
      | cons b bs =>
        obtain rfl : Char.ofNat b.toNat = ch := by simpa using hch
        rw [toNat_ofNat_byte]
        exact hhead b rfl
    · simpa [length_safeBytes] using hc

lemma codes_safeStr : Codes (readSafeStr .latin1) (fun s => writeSafeStr s .latin1) Latin1Safe
    safeBytes where
  write _ h := writeSafeStr_latin1 h.length
  reads _ h := reads_safeStr h
  valid := yields_safeStr.imp fun _ _ h => h.1

end Moulars.Plasma
