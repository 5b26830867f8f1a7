import Moulars.Lib.CutText
import Moulars.Sdl.VariableRoundTrip

/-!
Strings in cells of thirty-two bytes.

The reader takes up to thirty-two bytes of a cell, and turns what is not UTF-8 into replacement
characters of three bytes each; the writer keeps thirty-one bytes of the text. So a cell may be
read as a text that is not read again once it is written.
-/

namespace Moulars.Sdl

open Lib Lib.Wire Lib.Text Hashes Plasma

/-! ### One cell -/

/-- The text takes at most thirty-one bytes, or it takes more of them only to end in a
replacement character, into which the cut falls. -/
def Keeps32 (s : String) : Prop :=
  (encodeUtf8 s.toList).length ≤ 31 ∨
    (encodeUtf8 s.toList).length ≤ 33 ∧ s.toList.getLast? = some replacement

instance (s : String) : Decidable (Keeps32 s) := inferInstanceAs (Decidable (_ ∨ _))

lemma notMem_string32Text (buf : Bytes) : 0 ∉ encodeUtf8 (string32Text buf).toList := by
  rw [string32Text, String.toList_ofList]
  refine notMem_encodeUtf8_fromUtf8Lossy fun hmem => ?_
  simpa using List.all_eq_true.1 List.all_takeWhile 0 hmem

lemma string32Text_string32Bytes_cut {s : String} (h : 0 ∉ encodeUtf8 s.toList) :
    string32Text (string32Bytes s) =
      String.ofList (fromUtf8Lossy ((encodeUtf8 s.toList).take 31)) := by
  have hzeros : ∀ n, (List.replicate n (0 : UInt8) ++ [0]).takeWhile (· ≠ 0) = [] := by
    intro n
    cases n with
    | zero => rfl
    | succ n => rfl
  have htake : (string32Bytes s).takeWhile (· ≠ 0) = (encodeUtf8 s.toList).take 31 := by
    simp only [string32Bytes]
    rw [List.take_append, List.take_replicate, List.append_assoc, List.takeWhile_append_of_pos,
      hzeros, List.append_nil]
    intro b hb
    have : b ≠ 0 := fun h0 => h (h0 ▸ List.mem_of_mem_take hb)
    simpa using this
  rw [string32Text, htake]

/-- **One cell**: the text is read again exactly if it is kept. -/
lemma string32Text_string32Bytes_iff {s : String} (h : 0 ∉ encodeUtf8 s.toList) :
    string32Text (string32Bytes s) = s ↔ Keeps32 s := by
  have hlast : ∀ done, s.toList = done ++ [replacement] →
      (encodeUtf8 s.toList).length = (encodeUtf8 done).length + 3 := by
    intro done hs
    rw [hs, encodeUtf8_append, List.length_append]
    rfl
  rw [string32Text_string32Bytes_cut h, ← String.toList_inj, String.toList_ofList,
    fromUtf8Lossy_take_eq_iff, Keeps32]
  refine or_congr_right ⟨?_, ?_⟩
  · rintro ⟨done, hs, hlt⟩
    have := hlast done hs
    exact ⟨by omega, by rw [hs, List.getLast?_concat]⟩
  · rintro ⟨hle, hs⟩
    obtain ⟨done, hdone⟩ := List.getLast?_eq_some_iff.1 hs
    have := hlast done hdone
    exact ⟨done, hdone, by omega⟩

/-! ### All cells of a variable -/

lemma yields_varCount_lt (descriptor : VarDescriptor) : Yields (readVarCount descriptor)
    fun n _ => n < 10000 ∧ ∀ m ∈ descriptor.count, n = m := by
  have hcheck : ∀ n, Yields (checkVarCount n) fun m _ => m < 10000 ∧ m = n := by
    intro n
    rw [checkVarCount]
    split
    · exact Yields.fail _ _
    · exact Yields.pure _ ⟨by omega, rfl⟩
  rw [readVarCount]
  cases hd : descriptor.count with
  | some m => exact (hcheck m).imp fun n c hn => ⟨hn.1, by simp [hn.2]⟩
  | none => exact (Yields.u32.imp fun _ _ _ => trivial).bind fun m c _ =>
      (hcheck _).imp fun n c hn => ⟨hn.1, by simp⟩

lemma yields_string32 (H : Host) (depth : ℕ) (descriptor : VarDescriptor) :
    Yields (readValues (σ := State) H depth descriptor .string32) fun values _ =>
      ∃ texts : List String, values = .simple .string32 texts ∧ texts.length < 10000 ∧
        (∀ m ∈ descriptor.count, texts.length = m) ∧
        ∀ s ∈ texts, 0 ∉ encodeUtf8 s.toList := by
  refine (yields_varCount_lt descriptor).bind ?_
  rintro n c ⟨hn, hcount⟩
  have helem : Yields (readElem H.zlib depth .string32) fun (s : String) _ =>
      0 ∉ encodeUtf8 s.toList :=
    (Yields.exact 32).bind fun buf _ _ => Yields.pure _ (notMem_string32Text buf)
  refine (Yields.times_all helem n).bind ?_
  rintro texts d ⟨rfl, htexts⟩
  exact Yields.pure _ ⟨texts, rfl, hn, hcount, htexts⟩

lemma reads_string32 (H : Host) (depth : ℕ) (v : Variable) {texts : List String}
    (hfew : texts.length < 10000) (hcount : ∀ m ∈ v.descriptor.count, texts.length = m) :
    ∃ b, valueBytes H.zlib v .string32 texts = .ok b ∧
      Reads (readValues (σ := State) H depth v.descriptor .string32) b
        (.simple .string32 (texts.map fun s => string32Text (string32Bytes s))) := by
  have hcells := Reads.times_map (p := readElem H.zlib depth .string32)
    (f := fun s => string32Text (string32Bytes s)) texts fun s _ =>
      (Reads.exact (string32Bytes s) (length_string32Bytes s)).bind_pure
  refine ⟨_, ?_, (reads_varCount hfew hcount).bind hcells.bind_pure⟩
  have heach : Out.each (writeElem H.zlib .string32) texts =
      Out.put (texts.flatMap string32Bytes) :=
    Out.each_eq_put texts fun s _ => rfl
  rw [valueBytes, writeVarCount_eq hfew, heach, Out.put_append_put]
  rfl

/-- The texts are written, and read again as they were. -/
def Stable32 (H : Host) (depth : ℕ) (v : Variable) (texts : List String) : Prop :=
  ∃ b, valueBytes H.zlib v .string32 texts = .ok b ∧
    Reads (readValues (σ := State) H depth v.descriptor .string32) b (.simple .string32 texts)

lemma stable32_iff (H : Host) (depth : ℕ) (v : Variable) {texts : List String}
    (hfew : texts.length < 10000) (hcount : ∀ m ∈ v.descriptor.count, texts.length = m) :
    Stable32 H depth v texts ↔
      texts.map (fun s => string32Text (string32Bytes s)) = texts := by
  obtain ⟨b, hb, hread⟩ := reads_string32 H depth v hfew hcount
  constructor
  · rintro ⟨b', hb', hread'⟩
    obtain rfl : b = b' := Except.ok.inj (hb.symm.trans hb')
    simpa using hread.unique hread'
  · intro heq
    rw [heq] at hread
    exact ⟨b, hb, hread⟩

/-- **The texts read from cells are read again, once they are written, exactly if each of them
takes at most thirty-one bytes**, or at most thirty-three with a replacement character last. -/
theorem string32_cells_stable_iff (H : Host) (depth : ℕ) (v : Variable) {bs rest : Bytes}
    {texts : List String} (h : (readValues (σ := State) H depth v.descriptor .string32).run bs =
      .ok (.simple .string32 texts, rest)) :
    Stable32 H depth v texts ↔ ∀ s ∈ texts, Keeps32 s := by
  obtain ⟨-, -, texts', heq, hfew, hcount, hnul⟩ := yields_string32 H depth v.descriptor _ _ _ h
  cases heq
  rw [stable32_iff H depth v hfew hcount]
  nth_rewrite 2 [← List.map_id texts]
  rw [List.map_inj_left]
  exact forall₂_congr fun s hs => string32Text_string32Bytes_iff (hnul s hs)

def testText : Variable :=
  ⟨⟨"sTestVar", .simple .string32, some 1, none⟩, .simple .string32 [""], UnifiedTime.default, "",
    false⟩

/-- Eleven bytes that are not UTF-8 are read as thirty-three, the last of which are cut. -/
theorem badBytes_stable :
    Stable32 plainHost 0 testText [String.ofList (List.replicate 11 replacement)] := by
  have hread : (readValues (σ := State) plainHost 0 testText.descriptor .string32).run
      (List.replicate 11 0xFF ++ List.replicate 21 0) =
        .ok (.simple .string32 [String.ofList (List.replicate 11 replacement)], []) := rfl
  refine (string32_cells_stable_iff plainHost 0 testText hread).2 fun s hs => ?_
  obtain rfl := List.mem_singleton.1 hs
  decide +kernel

/-- A cell without a terminator, and one of twelve bytes that are not UTF-8. -/
theorem fullCells_not_stable :
    ((readValues (σ := State) plainHost 0 testText.descriptor .string32).run
        (List.replicate 32 0x61) =
          .ok (.simple .string32 [String.ofList (List.replicate 32 'a')], []) ∧
      ¬ Stable32 plainHost 0 testText [String.ofList (List.replicate 32 'a')]) ∧
    ((readValues (σ := State) plainHost 0 testText.descriptor .string32).run
        (List.replicate 12 0xFF ++ List.replicate 20 0) =
          .ok (.simple .string32 [String.ofList (List.replicate 12 replacement)], []) ∧
      ¬ Stable32 plainHost 0 testText [String.ofList (List.replicate 12 replacement)]) := by
  have hiff (s : String) : Stable32 plainHost 0 testText [s] ↔
      [string32Text (string32Bytes s)] = [s] :=
    stable32_iff plainHost 0 testText (by simp) fun m hm => Option.some.inj hm
  refine ⟨⟨rfl, ?_⟩, rfl, ?_⟩
  · rw [hiff]
    decide +kernel
  · rw [hiff]
    decide +kernel

end Moulars.Sdl
