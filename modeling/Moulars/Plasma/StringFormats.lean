import Moulars.Plasma.SafeString

/-!
Safe strings in all three formats.

The writer inverts every unit; the reader inverts them back if the first one it finds has its
top bit set. So a string comes back exactly if its first unit has not: if it starts below 0x80
as bytes, or below 0x8000 as UTF-16.
-/

namespace Moulars.Plasma

open Lib.Wire Lib.Text

namespace StringFormat

/-- The strings that the format has units for. -/
def Represents : StringFormat → String → Prop
  | .latin1, s => ∀ c ∈ s.toList, c.toNat < 0x100
  | .utf8, _ => True
  | .utf16, _ => True

instance : ∀ (format : StringFormat) (s : String), Decidable (format.Represents s)
  | .latin1, s => List.decidableBAll (fun c : Char => c.toNat < 0x100) s.toList
  | .utf8, _ => isTrue trivial
  | .utf16, _ => isTrue trivial

def encodedLength : StringFormat → String → ℕ
  | .latin1, s => s.toList.length
  | .utf8, s => (encodeUtf8 s.toList).length
  | .utf16, s => (encodeUtf16 s.toList).length

/-- The first character whose first unit has the top bit set. -/
def topBit : StringFormat → ℕ
  | .latin1 => 0x80
  | .utf8 => 0x80
  | .utf16 => 0x8000

/-- What the reader makes of the inverted units of a string. -/
def reread : StringFormat → String → String
  | .latin1, s => String.ofList ((uninvert8 ((s.toList.map latin1Byte).map (~~~ ·))).map
      fun b => Char.ofNat b.toNat)
  | .utf8, s => String.ofList (fromUtf8Lossy (uninvert8 ((encodeUtf8 s.toList).map (~~~ ·))))
  | .utf16, s =>
    String.ofList (decodeUtf16Lossy (uninvert16 ((encodeUtf16 s.toList).map (~~~ ·))))

end StringFormat

/-! ### Inverting twice -/

lemma toNat_not16 (u : UInt16) : (~~~ u).toNat = 0xFFFF - u.toNat := by
  rw [UInt16.toNat_not]
  rfl

lemma uninvert8_not_cons {b : UInt8} (bs : Bytes) (h : 0x80 ≤ b.toNat) :
    uninvert8 ((b :: bs).map (~~~ ·)) = (b :: bs).map (~~~ ·) := by
  have htop : ¬ 0x80 ≤ (~~~ b).toNat := by
    rw [toNat_not]
    omega
  rw [List.map_cons, uninvert8, if_neg htop]

lemma uninvert16_not {us : List UInt16} (h : ∀ u ∈ us.head?, u.toNat < 0x8000) :
    uninvert16 (us.map (~~~ ·)) = us := by
  cases us with
  | nil => rfl
  | cons u us =>
    have hu : u.toNat < 0x8000 := h u rfl
    have htop : 0x8000 ≤ (~~~ u).toNat := by
      rw [toNat_not16]
      omega
    rw [List.map_cons, uninvert16, if_pos htop]
    simp [Function.comp_def]

lemma uninvert16_not_cons {u : UInt16} (us : List UInt16) (h : 0x8000 ≤ u.toNat) :
    uninvert16 ((u :: us).map (~~~ ·)) = (u :: us).map (~~~ ·) := by
  have htop : ¬ 0x8000 ≤ (~~~ u).toNat := by
    rw [toNat_not16]
    omega
  rw [List.map_cons, uninvert16, if_neg htop]

/-! ### First units -/

lemma utf8Step_ascii {a : UInt8} (r : Bytes) (h : a.toNat < 0x80) :
    utf8Step a r = (Char.ofNat a.toNat, r) := by
  rw [utf8Step.eq_def, if_pos h]

lemma utf8EncodeChar_first (c : Char) :
    ∃ a t, String.utf8EncodeChar c = a :: t ∧ (a.toNat < 0x80 ↔ c.toNat < 0x80) := by
  obtain ⟨a, t, hc, hstep⟩ := utf8Step_utf8EncodeChar c []
  refine ⟨a, t, hc, fun ha => ?_, fun hlt => ?_⟩
  · rw [utf8Step_ascii _ ha] at hstep
    rw [← (Prod.mk.inj hstep).1, toNat_ofNat_byte]
    exact ha
  · have hle : c.val.toNat ≤ 0x7f := Nat.lt_succ_iff.1 hlt
    rw [String.utf8EncodeChar, if_pos hle] at hc
    obtain ⟨rfl, -⟩ := List.cons.inj hc
    rwa [UInt8.toNat_ofNat_of_lt' (by rw [UInt8.size]; omega)]

lemma utf16Char_first (c : Char) :
    ∃ u t, utf16Char c = u :: t ∧ (u.toNat < 0x8000 ↔ c.toNat < 0x8000) := by
  have hv := char_valid c
  rw [utf16Char]
  split
  · refine ⟨_, [], rfl, ?_⟩
    rw [UInt16.toNat_ofNat_of_lt' (by simpa using ‹_›)]
  · refine ⟨_, [_], rfl, ?_⟩
    rw [UInt16.toNat_ofNat_of_lt' (by rw [UInt16.size]; omega)]
    omega

lemma fromUtf8Lossy_ascii {a : UInt8} (r : Bytes) (h : a.toNat < 0x80) :
    (fromUtf8Lossy (a :: r)).head? = some (Char.ofNat a.toNat) := by
  rw [fromUtf8Lossy, List.length_cons, utf8Take, utf8Step_ascii r h]
  rfl

lemma toNat_ofNat_below {u : UInt16} (h : u.toNat < 0x8000) :
    (Char.ofNat u.toNat).toNat = u.toNat :=
  toNat_ofNat_of_not_surrogate (by simp [isHigh]; omega) (by simp [isLow]; omega)

lemma decodeUtf16Lossy_below {u : UInt16} (us : List UInt16) (h : u.toNat < 0x8000) :
    (decodeUtf16Lossy (u :: us)).head? = some (Char.ofNat u.toNat) := by
  have hc := toNat_ofNat_below h
  have hdec := decodeUtf16Lossy_bmp (Char.ofNat u.toNat) (by rw [hc]; omega) us
  rw [hc, UInt16.ofNat_toNat] at hdec
  rw [hdec]
  rfl

/-! ### All formats -/

open StringFormat

/-- **A string written and read**, whether it comes back or not. -/
lemma reads_reread (format : StringFormat) {s : String} (hl : format.encodedLength s ≤ 0x0FFF) :
    ∃ b, writeSafeStr s format = .ok b ∧ Reads (readSafeStr format) b (format.reread s) := by
  have hput {n : ℕ} (hn : n ≤ 0x0FFF) (body : Bytes) :
      writeSafe n body = .ok (le 2 (0xF000 + n) ++ body) := by
    rw [writeSafe, if_neg (Nat.not_lt.2 hn), Out.put_append_put]
    rfl
  have hbytes {bs : Bytes} (hn : bs.length ≤ 0x0FFF) :
      Reads readSafeBytes (le 2 (0xF000 + bs.length) ++ bs) (uninvert8 bs) :=
    (reads_safeLength hn).bind (Reads.exact bs rfl).bind_pure
  cases format with
  | latin1 =>
    rw [encodedLength] at hl
    have hmap : (s.toList.map fun c => ~~~ latin1Byte c) =
        (s.toList.map latin1Byte).map (~~~ ·) := by
      rw [List.map_map]
      rfl
    have hlen : ((s.toList.map latin1Byte).map (~~~ ·)).length ≤ 0x0FFF := by simpa using hl
    refine ⟨_, ?_, (hbytes hlen).bind_pure⟩
    rw [writeSafeStr, hmap]
    exact hput hlen _
  | utf8 =>
    rw [encodedLength] at hl
    have hlen : ((encodeUtf8 s.toList).map (~~~ ·)).length ≤ 0x0FFF := by simpa using hl
    exact ⟨_, hput hlen _, (hbytes hlen).bind_pure⟩
  | utf16 =>
    rw [encodedLength] at hl
    refine ⟨_, hput hl _, (reads_safeLength hl).bind ?_⟩
    have hunits := reads_units ((encodeUtf16 s.toList).map (~~~ ·))
    rw [List.length_map] at hunits
    exact hunits.bind (Reads.u16 0).bind_pure

lemma reread_ne {format : StringFormat} {s : String} (h : format.Represents s) {c : Char}
    {cs : List Char} (hs : s.toList = c :: cs) (hc : format.topBit ≤ c.toNat) :
    format.reread s ≠ s := by
  intro heq
  have hlist := congrArg String.toList heq
  cases format with
  | latin1 =>
    have hlt : c.toNat < 0x100 := h c (by simp [hs])
    have hbyte := toNat_latin1Byte hlt
    rw [topBit] at hc
    rw [reread, String.toList_ofList, hs, List.map_cons,
      uninvert8_not_cons _ (by rw [hbyte]; exact hc), List.map_cons, List.map_cons] at hlist
    have hfirst := congrArg Char.toNat (List.cons.inj hlist).1
    rw [toNat_ofNat_byte, toNat_not, hbyte] at hfirst
    omega
  | utf8 =>
    obtain ⟨a, t, ha, hfirst⟩ := utf8EncodeChar_first c
    rw [topBit] at hc
    have htop : 0x80 ≤ a.toNat := by omega
    have hnot : (~~~ a).toNat < 0x80 := by
      have := a.toNat_lt
      rw [toNat_not]
      omega
    have henc : encodeUtf8 s.toList = a :: (t ++ encodeUtf8 cs) := by
      rw [hs, encodeUtf8, List.flatMap_cons, ha]
      rfl
    have hhead := congrArg List.head? hlist
    rw [reread, String.toList_ofList, henc, uninvert8_not_cons _ htop, List.map_cons,
      fromUtf8Lossy_ascii _ hnot, hs, List.head?_cons] at hhead
    have hchar := congrArg Char.toNat (Option.some.inj hhead)
    rw [toNat_ofNat_byte] at hchar
    omega
  | utf16 =>
    obtain ⟨u, t, hu, hfirst⟩ := utf16Char_first c
    rw [topBit] at hc
    have htop : 0x8000 ≤ u.toNat := by omega
    have hnot : (~~~ u).toNat < 0x8000 := by
      have := u.toNat_lt
      rw [toNat_not16]
      omega
    have henc : encodeUtf16 s.toList = u :: (t ++ encodeUtf16 cs) := by
      rw [hs, encodeUtf16, List.flatMap_cons, hu]
      rfl
    have hhead := congrArg List.head? hlist
    rw [reread, String.toList_ofList, henc, uninvert16_not_cons _ htop, List.map_cons,
      decodeUtf16Lossy_below _ hnot, hs, List.head?_cons] at hhead
    have hchar := congrArg Char.toNat (Option.some.inj hhead)
    rw [toNat_ofNat_below hnot] at hchar
    omega

lemma reread_eq {format : StringFormat} {s : String} (h : format.Represents s)
    (hfirst : ∀ c ∈ s.toList.head?, c.toNat < format.topBit) : format.reread s = s := by
  cases format with
  | latin1 =>
    have hhead : ∀ b ∈ (s.toList.map latin1Byte).head?, b.toNat < 0x80 := by
      intro b hb
      rw [List.head?_map, Option.mem_map] at hb
      obtain ⟨c, hc, rfl⟩ := hb
      rw [toNat_latin1Byte (h c (List.mem_of_mem_head? hc))]
      exact hfirst c hc
    rw [reread, uninvert8_not hhead, map_latin1Byte h, String.ofList_toList]
  | utf8 =>
    have hhead : ∀ b ∈ (encodeUtf8 s.toList).head?, b.toNat < 0x80 := by
      intro b hb
      cases hs : s.toList with
      | nil => simp [hs, encodeUtf8] at hb
      | cons c cs =>
        obtain ⟨a, t, ha, hiff⟩ := utf8EncodeChar_first c
        rw [hs, encodeUtf8, List.flatMap_cons, ha] at hb
        obtain rfl : a = b := Option.some.inj hb
        exact hiff.2 (hfirst c (by rw [hs]; rfl))
    rw [reread, uninvert8_not hhead, fromUtf8Lossy_encodeUtf8, String.ofList_toList]
  | utf16 =>
    have hhead : ∀ u ∈ (encodeUtf16 s.toList).head?, u.toNat < 0x8000 := by
      intro u hu
      cases hs : s.toList with
      | nil => simp [hs, encodeUtf16] at hu
      | cons c cs =>
        obtain ⟨a, t, ha, hiff⟩ := utf16Char_first c
        rw [hs, encodeUtf16, List.flatMap_cons, ha] at hu
        obtain rfl : a = u := Option.some.inj hu
        exact hiff.2 (hfirst c (by rw [hs]; rfl))
    rw [reread, uninvert16_not hhead, decodeUtf16Lossy_encodeUtf16, String.ofList_toList]

def RoundTrips (format : StringFormat) (s : String) : Prop :=
  ∃ b, writeSafeStr s format = .ok b ∧ Reads (readSafeStr format) b s

lemma roundTrips_iff_reread {format : StringFormat} {s : String}
    (hl : format.encodedLength s ≤ 0x0FFF) : RoundTrips format s ↔ format.reread s = s := by
  obtain ⟨b, hb, hread⟩ := reads_reread format hl
  constructor
  · rintro ⟨b', hb', hs⟩
    obtain rfl : b = b' := Except.ok.inj (hb.symm.trans hb')
    exact hread.unique hs
  · intro heq
    rw [heq] at hread
    exact ⟨b, hb, hread⟩

/-- **A safe string comes back exactly if its first character leaves the top bit of the first
unit clear.** Otherwise its inverted form does not look inverted, and the reader takes it as it
is. -/
theorem safeStr_round_trip_iff (format : StringFormat) {s : String} (h : format.Represents s)
    (hl : format.encodedLength s ≤ 0x0FFF) :
    RoundTrips format s ↔ ∀ c ∈ s.toList.head?, c.toNat < format.topBit := by
  rw [roundTrips_iff_reread hl]
  constructor
  · intro heq c hc
    by_contra hnot
    obtain ⟨cs, hcs⟩ := List.head?_eq_some_iff.1 hc
    exact reread_ne h hcs (Nat.not_lt.1 hnot) heq
  · exact reread_eq h

theorem asciiName_round_trips : RoundTrips .latin1 "BahroCave" := by
  refine (safeStr_round_trip_iff .latin1 (by decide) (by decide)).2 fun c hc => ?_
  obtain rfl : 'B' = c := Option.some.inj hc
  decide

/-- Strings that start with an accented letter, or in UTF-16 with a unit of the upper half, do
not come back; what comes back of the first is the inverted text. -/
theorem accentedName_garbled :
    (Represents .latin1 "été" ∧ writeSafeStr "été" .latin1 = .ok [0x03, 0xF0, 0x16, 0x8B, 0x16] ∧
      (readSafeStr .latin1).run [0x03, 0xF0, 0x16, 0x8B, 0x16] =
        .ok (String.ofList [Char.ofNat 0x16, Char.ofNat 0x8B, Char.ofNat 0x16], [])) ∧
      ¬ RoundTrips .latin1 "été" ∧ ¬ RoundTrips .utf8 "été" ∧ ¬ RoundTrips .utf16 "한" := by
  refine ⟨⟨by decide, rfl, rfl⟩, ?_, ?_, ?_⟩
  · rw [roundTrips_iff_reread (by decide)]
    exact reread_ne (by decide) rfl (by decide)
  · rw [roundTrips_iff_reread (by decide)]
    exact reread_ne (by decide) rfl (by decide)
  · rw [roundTrips_iff_reread (by decide)]
    exact reread_ne (by decide) rfl (by decide)

end Moulars.Plasma
