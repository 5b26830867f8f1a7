import Moulars.Plasma.SealedFiles

/-!
Files that are written without encryption.

The writer makes room for a size also where there is no marker, and a flush leaves it at 0. The
reader looks for a size only after a marker. So what is written plain is read back with the four
bytes of the size before it.
-/

namespace Moulars.Plasma

open Lib Lib.Wire Lib.Fallible

/-! ### The writer -/

/-- A writer without encryption: behind the size, the stream holds what was written. -/
structure EncryptedWriter.Plain (start : Cursor) (content : Bytes) (w : EncryptedWriter) :
    Prop where
  type : w.encryptionType = .unencrypted
  base : w.base = start.write (le 4 0 ++ content)

namespace EncryptedWriter.Plain

variable {start : Cursor} {content : Bytes} {w : EncryptedWriter}

lemma new (start : Cursor) (key : CryptKey) :
    (EncryptedWriter.new start .unencrypted key).Plain start [] where
  type := rfl
  base := by
    show (start.write []).write (le 4 0) = _
    rw [Cursor.write_write, List.nil_append, List.append_nil]

lemma flush (h : w.Plain start content) : w.flush = (.ok (), w) := by
  rw [EncryptedWriter.flush, if_pos h.type]

lemma write (h : w.Plain start content) (buf : Bytes) :
    ∃ w', w.write buf = .ok (buf.length, w') ∧ w'.Plain start (content ++ buf) := by
  rw [EncryptedWriter.write, if_pos h.type]
  refine ⟨_, rfl, h.type, ?_⟩
  show w.base.write buf = _
  rw [h.base, Cursor.write_write, List.append_assoc]

lemma runs (h : w.Plain start content) (calls : List EncryptedWriter.Call) :
    ∃ w', calls.foldlM EncryptedWriter.run w = .ok w' ∧
      w'.Plain start (content ++ calls.flatMap EncryptedWriter.Call.written) := by
  induction calls generalizing w content with
  | nil => exact ⟨w, rfl, by simpa using h⟩
  | cons call calls ih =>
    rw [List.foldlM_cons, List.flatMap_cons, ← List.append_assoc]
    cases call with
    | write buf =>
      obtain ⟨w₁, hrun, h₁⟩ := h.write buf
      obtain ⟨w', hruns, h'⟩ := ih h₁
      exact ⟨w', bind_eq_ok.2 ⟨w₁, map_eq_ok.2 ⟨_, hrun, rfl⟩, hruns⟩, h'⟩
    | flush =>
      obtain ⟨w', hruns, h'⟩ := ih h
      rw [EncryptedWriter.Call.written, List.append_nil]
      refine ⟨w', bind_eq_ok.2 ⟨w, ?_, hruns⟩, h'⟩
      rw [EncryptedWriter.run, h.flush]
      rfl

lemma drop_intoInner (h : w.Plain start content) :
    ∃ rest, w.intoInner.data.drop start.pos = le 4 0 ++ (content ++ rest) := by
  rw [EncryptedWriter.intoInner, h.flush, h.base, Cursor.drop_write, List.append_assoc]
  exact ⟨_, rfl⟩

end EncryptedWriter.Plain

/-! ### The reader -/

lemma EncryptedReader.reads_plain {r : EncryptedReader} (h : r.encryptionType = .unencrypted)
    (lens : List ℕ) : r.reads lens = .ok ((r.base.data.drop r.base.pos).take lens.sum) := by
  induction lens generalizing r with
  | nil => rfl
  | cons len lens ih =>
    rw [EncryptedReader.reads, EncryptedReader.read, if_pos h]
    have hnext := ih (r := { r with base := (r.base.read len).2 }) h
    rw [Cursor.drop_read] at hnext
    rw [List.sum_cons, List.take_add]
    exact congrArg (Except.map _) hnext

lemma EncryptedReader.new_plain {stream : Cursor} (key : CryptKey)
    (h : EncryptionType.fromStream stream = (.unencrypted, stream)) :
    EncryptedReader.new stream key =
      .ok ⟨stream, .unencrypted, key, List.replicate 8 0, 0, 0⟩ := by
  rw [EncryptedReader.new, h]
  rfl

lemma EncryptionType.fromStream_zero {stream : Cursor} {bs : Bytes}
    (h : stream.data.drop stream.pos = 0 :: bs) :
    EncryptionType.fromStream stream = (.unencrypted, stream) := by
  rw [fromStream, Cursor.readExact, h]
  split
  · rfl
  · rename_i hread
    split at hread
    · cases hread
      rw [List.take_succ_cons, if_neg, if_neg] <;>
        exact fun hmarker => by revert hmarker; simp [asciiBytes]
    · cases hread

/-! ### What is written is not what is read back -/

lemma take_replicate_append_iff {α : Type*} {n k : ℕ} (hn : 0 < n) (z : α) (l rest : List α) :
    (List.replicate n z ++ (l ++ rest)).take k = l.take k ↔
      k ≤ l.length ∧ ∀ x ∈ l.take k, x = z := by
  constructor
  · intro h
    have hk : k ≤ l.length := by
      have hlen := congrArg List.length h
      simp only [List.length_take, List.length_append, List.length_replicate] at hlen
      omega
    have hget (i : ℕ) (hi : i < k) : l[i]? = some z := by
      induction i using Nat.strong_induction_on with
      | _ i ih =>
        have hi' := congrArg (fun l => l[i]?) h
        simp only [List.getElem?_take, if_pos hi] at hi'
        rw [← hi']
        by_cases hin : i < n
        · rw [List.getElem?_append_left (by simpa using hin), List.getElem?_replicate, if_pos hin]
        · rw [List.getElem?_append_right (by simpa using hin), List.length_replicate,
            List.getElem?_append_left (by omega)]
          exact ih (i - n) (by omega) (by omega)
    refine ⟨hk, fun x hx => ?_⟩
    obtain ⟨i, hi⟩ := List.mem_iff_getElem?.1 hx
    have hik : i < k := by
      by_contra hik
      rw [List.getElem?_take, if_neg hik] at hi
      cases hi
    rw [List.getElem?_take, if_pos hik, hget i hik] at hi
    exact (Option.some.inj hi).symm
  · rintro ⟨hk, hall⟩
    have htake : l.take k = List.replicate k z :=
      List.eq_replicate_iff.2 ⟨by rw [List.length_take]; omega, hall⟩
    have hl : l = List.replicate k z ++ l.drop k := by rw [← htake, List.take_append_drop]
    rw [htake, hl, List.append_assoc, ← List.append_assoc, List.replicate_append_replicate,
      Nat.add_comm, ← List.replicate_append_replicate, List.append_assoc]
    exact List.take_left' (List.length_replicate ..)

/-- A reader on what was written plain reads the written bytes, with buffers of these sizes. -/
def PlainReadsBack (key : CryptKey) (start : Cursor) (calls : List EncryptedWriter.Call)
    (lens : List ℕ) : Prop :=
  ∃ w r, calls.foldlM EncryptedWriter.run (EncryptedWriter.new start .unencrypted key) = .ok w ∧
    EncryptedReader.new ⟨w.intoInner.data, start.pos⟩ key = .ok r ∧
    r.reads lens = .ok ((calls.flatMap EncryptedWriter.Call.written).take lens.sum)

/-- What is read back is the size, and only then what was written. -/
lemma exists_plain_reads (key : CryptKey) (start : Cursor) (calls : List EncryptedWriter.Call) :
    ∃ w r rest,
      calls.foldlM EncryptedWriter.run (EncryptedWriter.new start .unencrypted key) = .ok w ∧
      EncryptedReader.new ⟨w.intoInner.data, start.pos⟩ key = .ok r ∧
      ∀ lens : List ℕ, r.reads lens =
        .ok ((le 4 0 ++ (calls.flatMap EncryptedWriter.Call.written ++ rest)).take lens.sum) := by
  obtain ⟨w, hruns, hw⟩ := (EncryptedWriter.Plain.new start key).runs calls
  rw [List.nil_append] at hw
  obtain ⟨rest, hdata⟩ := hw.drop_intoInner
  have hplain : EncryptionType.fromStream ⟨w.intoInner.data, start.pos⟩ = _ :=
    EncryptionType.fromStream_zero hdata
  refine ⟨w, _, rest, hruns, EncryptedReader.new_plain key hplain, fun lens => ?_⟩
  rw [EncryptedReader.reads_plain rfl]
  exact congrArg (fun bs => Except.ok (List.take lens.sum bs)) hdata

/-- **What is written plain is read back only as far as it is zero**, and not to its end: the
size comes before it. -/
theorem plain_readsBack_iff (key : CryptKey) (start : Cursor)
    (calls : List EncryptedWriter.Call) (lens : List ℕ) :
    PlainReadsBack key start calls lens ↔
      lens.sum ≤ (calls.flatMap EncryptedWriter.Call.written).length ∧
        ∀ b ∈ (calls.flatMap EncryptedWriter.Call.written).take lens.sum, b = 0 := by
  obtain ⟨w, r, rest, hruns, hnew, hreads⟩ := exists_plain_reads key start calls
  have hiff := take_replicate_append_iff (n := 4) (k := lens.sum) (by decide) (0 : UInt8)
    (calls.flatMap EncryptedWriter.Call.written) rest
  rw [← hiff]
  constructor
  · rintro ⟨w', r', hruns', hnew', hreads'⟩
    cases hruns.symm.trans hruns'
    cases hnew.symm.trans hnew'
    exact Except.ok.inj ((hreads lens).symm.trans hreads')
  · intro h
    exact ⟨w, r, hruns, hnew, (hreads lens).trans (congrArg Except.ok h)⟩

/-- A byte that is written plain comes back behind four others. -/
theorem plainByte_not_readBack :
    ¬ PlainReadsBack (fun _ => 1) ⟨[], 0⟩ [.write [65], .flush] [8] := by
  rintro ⟨w, r, hruns, hnew, hreads⟩
  cases hruns
  cases hnew
  cases hreads

end Moulars.Plasma
