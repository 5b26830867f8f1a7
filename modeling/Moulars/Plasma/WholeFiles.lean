import Moulars.Plasma.PassThrough

/-!
Files that are read from beginning to end, by a loop that stops at the first read that gives
nothing.
-/

namespace Moulars.Plasma

open Lib Lib.Wire Lib.Fallible

namespace EncryptedReader

/-- `io::copy` with a buffer of `size` bytes, in at most the given number of reads: what has been
copied when it ends or fails. -/
def copy (size : ℕ) : ℕ → EncryptedReader → Bytes × Except Fault Unit
  | 0, _ => ([], .ok ())
  | n + 1, r => match r.read size with
    | .error e => ([], .error e)
    | .ok (bs, r) =>
      if bs = [] then ([], .ok ())
      else (bs ++ (r.copy size n).1, (r.copy size n).2)

/-- More reads than a reader can have bytes for: it gives those of the file itself, or as many as
the file says that it has. -/
def rounds (r : EncryptedReader) : ℕ := r.baseSize + r.base.data.length + 1

variable {r : EncryptedReader} {content : Bytes}

lemma read_of_reads (h : ∀ lens : List ℕ, r.reads lens = .ok (content.take lens.sum)) (len : ℕ) :
    ∃ r', r.read len = .ok (content.take len, r') ∧
      ∀ lens : List ℕ, r'.reads lens = .ok ((content.drop len).take lens.sum) := by
  obtain ⟨⟨bs, r'⟩, hread, hrest⟩ := bind_eq_ok.1 (h [len])
  obtain ⟨more, hnil, happend⟩ := map_eq_ok.1 hrest
  cases hnil
  rw [List.append_nil, List.sum_singleton] at happend
  subst happend
  refine ⟨r', hread, fun lens => ?_⟩
  obtain ⟨⟨bs, r''⟩, hread', hrest'⟩ := bind_eq_ok.1 (h (len :: lens))
  cases hread.symm.trans hread'
  obtain ⟨more, hmore, happend⟩ := map_eq_ok.1 hrest'
  rw [List.sum_cons, List.take_add] at happend
  rw [hmore, List.append_cancel_left happend]

lemma length_readLoop {len n : ℕ} {dest bs : Bytes} {r r' : EncryptedReader}
    (h : readLoop len n dest r = .ok (bs, r')) :
    bs.length ≤ dest.length + (r.baseSize - r.readPos) := by
  induction n generalizing dest r with
  | zero =>
    cases h
    exact Nat.le_add_right _ _
  | succ n ih =>
    unfold readLoop at h
    split at h
    · dsimp only at h
      split at h
      · cases h
        exact Nat.le_add_right _ _
      · obtain ⟨r₁, hblock, hloop⟩ := bind_eq_ok.1 h
        have hsame : r₁.baseSize = r.baseSize ∧ r₁.readPos = r.readPos := by
          split at hblock
          · obtain ⟨⟨bs, base⟩, -, hmap⟩ := bind_eq_ok.1 hblock
            obtain ⟨block, -, rfl⟩ := map_eq_ok.1 hmap
            exact ⟨rfl, rfl⟩
          · cases hblock
            exact ⟨rfl, rfl⟩
        have hle := ih hloop
        simp only [List.length_append, List.length_take, List.length_drop, hsame.1, hsame.2] at hle
        omega
    · cases h
      exact Nat.le_add_right _ _

lemma length_lt_rounds (h : ∀ lens : List ℕ, r.reads lens = .ok (content.take lens.sum)) :
    content.length < r.rounds := by
  obtain ⟨r', hread, -⟩ := read_of_reads h content.length
  rw [List.take_length] at hread
  unfold read at hread
  unfold rounds
  split at hread
  · have hbytes : (r.base.read content.length).1 = content :=
      (Prod.mk.inj (Except.ok.inj hread)).1
    have hle := congrArg List.length hbytes
    simp only [Cursor.read, List.length_take, List.length_drop] at hle
    omega
  · have hle := length_readLoop hread
    simp only [List.length_nil] at hle
    omega

lemma copy_eq (h : ∀ lens : List ℕ, r.reads lens = .ok (content.take lens.sum)) {size n : ℕ}
    (hsize : 0 < size) (hn : content.length < n) : r.copy size n = (content, .ok ()) := by
  induction n generalizing r content with
  | zero => omega
  | succ n ih =>
    obtain ⟨r', hread, hrest⟩ := read_of_reads h size
    unfold copy
    rw [hread]
    dsimp only
    by_cases hnil : content.take size = []
    · have hempty : content = [] := (List.take_eq_nil_iff.1 hnil).resolve_left (by omega)
      rw [if_pos hnil, hempty]
    · have hne : content ≠ [] := fun hempty => hnil (by simp [hempty])
      have hpos : 0 < content.length := List.length_pos_of_ne_nil hne
      rw [if_neg hnil, ih hrest (by rw [List.length_drop]; omega), List.take_append_drop]

end EncryptedReader

/-- A file read to its end, encrypted or not. -/
def readWhole (key : CryptKey) (size : ℕ) (file : Bytes) : Except Fault Bytes :=
  (EncryptedReader.new ⟨file, 0⟩ key).bind fun r =>
    (r.copy size r.rounds).2.map fun _ => (r.copy size r.rounds).1

section Whole

variable {t : EncryptionType} {key : CryptKey} {size : ℕ} {file content : Bytes}

/-- A reader that gives the content with buffers of any sizes copies it. -/
lemma copies_of_reads {r : EncryptedReader}
    (hreads : ∀ lens : List ℕ, r.reads lens = .ok (content.take lens.sum)) (hsize : 0 < size) :
    r.copy size r.rounds = (content, .ok ()) :=
  EncryptedReader.copy_eq hreads hsize (EncryptedReader.length_lt_rounds hreads)

lemma readWhole_of_reads {r : EncryptedReader}
    (hnew : EncryptedReader.new ⟨file, 0⟩ key = .ok r)
    (hreads : ∀ lens : List ℕ, r.reads lens = .ok (content.take lens.sum)) (hsize : 0 < size) :
    readWhole key size file = .ok content := by
  rw [readWhole, hnew]
  dsimp only [Except.bind]
  rw [copies_of_reads hreads hsize]
  rfl

lemma ReadsBack.readWhole_eq (h : ReadsBack t key ⟨file, 0⟩ content) (hsize : 0 < size) :
    readWhole key size file = .ok content := by
  obtain ⟨r, hnew, -, hreads⟩ := h
  exact readWhole_of_reads hnew hreads hsize

lemma EncryptionType.fromStream_unencrypted {stream : Cursor}
    (h : (EncryptionType.fromStream stream).1 = .unencrypted) :
    EncryptionType.fromStream stream = (.unencrypted, stream) := by
  unfold fromStream at h ⊢
  split at h
  · rfl
  · split at h
    · cases h
    · split at h
      · cases h
      · rename_i htea hxxtea
        rw [if_neg htea, if_neg hxxtea]

lemma readWhole_plain (h : (EncryptionType.fromStream ⟨file, 0⟩).1 = .unencrypted)
    (hsize : 0 < size) : readWhole key size file = .ok file := by
  refine readWhole_of_reads (EncryptedReader.new_plain key
    (EncryptionType.fromStream_unencrypted h)) (fun lens => ?_) hsize
  rw [EncryptedReader.reads_plain rfl]
  rfl

end Whole

end Moulars.Plasma
