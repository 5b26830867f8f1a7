import Moulars.Sdl.BlobRoundTrip

/-!
How many elements a variable may have on the wire.

The writer refuses more than ten thousand elements, the reader ten thousand or more. A variable
declared with exactly ten thousand is therefore saved and never loaded again, unless its values
are the default and need not be written.
-/

namespace Moulars.Sdl

open Lib Lib.Wire Lib.Sparse Lib.Keyed Hashes
open Plasma

variable {X : Crates}

/-! ### The two limits -/

lemma exists_writeVarCount_iff {descriptor : VarDescriptor} {n : ℕ} :
    (∃ c, writeVarCount descriptor n = .ok c) ↔ n ≤ 10000 := by
  refine ⟨fun ⟨_, hc⟩ => le_of_writeVarCount hc, fun hn => ?_⟩
  rw [writeVarCount, if_neg (by omega)]
  split
  · exact ⟨_, rfl⟩
  · exact ⟨_, rfl⟩

lemma exists_reads_varCount_iff {descriptor : VarDescriptor} {n : ℕ}
    (hn : ∀ m ∈ descriptor.count, n = m) :
    (∃ c, Reads (readVarCount descriptor) c n) ↔ n < 10000 := by
  refine ⟨fun ⟨c, hc⟩ => ?_, fun hlt => ⟨_, reads_varCount hlt hn⟩⟩
  have hcheck : ∀ m, Yields (checkVarCount m) fun k _ => k < 10000 := by
    intro m
    rw [checkVarCount]
    split
    · exact Yields.fail _ _
    · exact Yields.pure _ (by omega)
  have hyields : Yields (readVarCount descriptor) fun k _ => k < 10000 := by
    rw [readVarCount]
    cases descriptor.count with
    | some m => exact hcheck m
    | none => exact Yields.u32.bind fun m c _ => hcheck m.toNat
  obtain ⟨_, -, hlt⟩ := hyields _ n [] (hc [])
  exact hlt

/-! ### Blobs that cannot be loaded -/

section

variable {t : SimpleType} {e : t.Elem} {descriptor : VarDescriptor} {vs : List t.Elem}

lemma ends_values (H : Host) (depth : ℕ) (hcount : descriptor.count = some 10000) (c : Bytes) :
    Ends (readValues (σ := State) H depth descriptor t) c := by
  rw [readValues, readVarCount, hcount]
  exact (Ends.fail (tooManyElements 10000) []).bind _ c

lemma ends_setVariable (H : Host) (db : DescriptorDb X) (depth : ℕ) (ht : Settable t)
    (htype : descriptor.varType = .simple t) (hd : t.defaultElem descriptor.default = .ok e)
    (hlimit : AtLimit (setVariable descriptor t vs)) {c : Bytes}
    (hc : (setVariable descriptor t vs).write H.zlib = .ok c) :
    Ends (readVariable H db depth (freshOf descriptor t e)) c := by
  obtain ⟨-, hcount, t', vs', hvs, x, hx, hne⟩ := hlimit
  cases hvs
  have hholding : Holding (setVariable descriptor t vs) t vs := holding_setVariable htype
  obtain ⟨same, hs⟩ := hholding.exists_isDefault_of_write hc
  cases same with
  | true =>
    obtain rfl := ((isDefault_setVariable ht htype hd).1 hs).2 x hx
    exact absurd hd hne
  | false =>
    obtain ⟨body, -, rfl⟩ := (hholding.write_eq_ok hs).1 hc
    rw [← List.append_assoc]
    refine (leads_variable hholding H db depth (freshOf descriptor t e) rfl false).ends ?_
    have hopt : (setVariable descriptor t vs).writeFlags false &&& sameAsDefault = 0 :=
      (writeFlags_sameAsDefault _ false).2 rfl
    rw [readTimestamp_default _ false H _ rfl, Reader.optional, if_pos hopt, pure_bind]
    exact (ends_values H depth hcount []).bind _ body

end

lemma exists_write_setVariable {t : SimpleType} {e : t.Elem} {descriptor : VarDescriptor}
    {vs : List t.Elem} (Z : Zlib) (ht : Settable t) (htype : descriptor.varType = .simple t)
    (hd : t.defaultElem descriptor.default = .ok e) (hle : vs.length ≤ 10000) :
    ∃ c, (setVariable descriptor t vs).write Z = .ok c := by
  have hholding : Holding (setVariable descriptor t vs) t vs := holding_setVariable htype
  obtain ⟨same, hs⟩ : ∃ same, (setVariable descriptor t vs).isDefault = .ok same := by
    rw [hholding.isDefault_eq]
    split
    · exact ⟨_, rfl⟩
    · rcases ht with rfl | rfl | rfl <;>
        exact ⟨_, by simp [isDefaultSimple, setVariable, hd, Except.bind, checkDefault]; rfl⟩
  obtain ⟨body, hbody⟩ : ∃ body, (if same then Out.put [] else
      valueBytes Z (setVariable descriptor t vs) t vs) = .ok body := by
    cases same with
    | true => exact ⟨[], rfl⟩
    | false =>
      obtain ⟨c, hc⟩ := exists_writeVarCount_iff.2 hle
      obtain ⟨d, hd⟩ := Out.exists_each.2 fun x (_ : x ∈ vs) =>
        ⟨_, writeElem_eq Z ht.ne_creatable (ht.storable x).1⟩
      exact ⟨_, Out.append_eq_ok.2 ⟨c, d, hc, hd, rfl⟩⟩
  exact ⟨_, (hholding.write_eq_ok hs).2 ⟨body, hbody, rfl⟩⟩

lemma ends_simple (H : Host) (db : DescriptorDb X) (depth : ℕ) {bs vs : List Variable}
    (hb : ∀ b ∈ bs, Fresh b) (hv : ∃ v ∈ vs, AtLimit v) (h : List.Forall₂ SetFrom bs vs)
    (bad : ℕ → Fault) {maxHint : ℕ} {c : Bytes}
    (hc : writeDirty (writeCompressedSize maxHint) (varEntries H.zlib vs) = .ok c) :
    Ends (readDirty (readCompressedSize maxHint) bad (readVariable H db depth) bs) c := by
  obtain ⟨bs₁, b, bs₂, vs₁, v, vs₂, rfl, rfl, h₁, hbv, hlen, hfirst, hlimit⟩ := forall₂_first h hv
  have hturns := turns_simple H db depth (fun b' hb' => hb b' (by simp [hb'])) hfirst h₁
  have hfresh := hb b (by simp)
  rcases hbv.cases_fresh hfresh with rfl | ⟨t, e, xs, ht, htype, he, hbase, -, rfl⟩
  · exact absurd hlimit.1 (by simp [hfresh.1])
  · rw [varEntries_eq, List.map_append, List.map_cons, ← varEntries_eq] at hc
    refine ends_dirty hturns (fun c hc => ?_) (by simpa using hlen.symm)
      (fun _ _ _ => reads_compressedSize) hc
    rw [hbase]
    exact ends_setVariable H db depth ht htype he hlimit hc

lemma ends_state {H : Host} {db : DescriptorDb X} {depth : ℕ} {s : State} (s₀ : State)
    (hdesc : s₀.descriptor = s.descriptor) (hb : ∀ b ∈ s₀.simpleVars, Fresh b)
    (hv : ∃ v ∈ s.simpleVars, AtLimit v) (h : List.Forall₂ SetFrom s₀.simpleVars s.simpleVars)
    {c : Bytes} (hc : s.write H.zlib = .ok c) : Ends (State.read H db (depth + 1) s₀) c := by
  rw [State.write_eq] at hc
  obtain ⟨d, hd, rfl⟩ := Out.put_append_eq_ok.1 hc
  obtain ⟨e, he, rfl⟩ := Out.put_append_eq_ok.1 hd
  obtain ⟨b₁, b₂, hb₁, -, rfl⟩ := Out.append_eq_ok.1 he
  refine ((Reads.u16 s.flags).leads _).ends (((Reads.u8 ioVersion).leads _).ends ?_)
  rw [if_neg (not_not.2 rfl), State.readVars, hdesc]
  exact (ends_simple H db depth hb hv h _ hb₁).bind _ b₂

lemma ends_setState {H : Host} {db : DescriptorDb X} (hparsed : db.Parsed) {d : StateDescriptor}
    (hholds : db.Holds d) {depth : ℕ} {s₀ s : State} (hs₀ : State.fromDefaults db depth d = .ok s₀)
    (hset : SetState s₀ s) (hlimit : ∃ v ∈ s.simpleVars, AtLimit v) {b : Bytes}
    (hb : s.toBlob H.zlib = .ok b) : Ends (State.readBlob H db depth) b := by
  have hwf := hparsed d hholds
  have hdefault := State.fromDefaults_eq_ok hs₀
  have hdesc : s.descriptor = d := hset.descriptor.trans hdefault.descriptor
  obtain ⟨depth, rfl⟩ := exists_depth hs₀
  obtain ⟨head, body, rfl, hbody, hhead⟩ := leads_blob (by rwa [hdesc])
    (by rw [hdesc]; exact hwf.ascii) (by rwa [hdesc])
    (by rw [hset.object, hdefault.object]; simp) hb
  exact hhead.ends (ends_state { s₀ with object := s.object } hset.descriptor.symm
    (fun v hv => hdefault.fresh hwf.typed hv) hlimit hset.simple hbody)

/-- **What can be saved can be loaded, but for one count.** For a database built from files the
parser accepts, and any state that setters have made of the defaults of one of its descriptors: its
blob can be read exactly if no variable of exactly ten thousand elements has one that differs from
the default. The limits on counts agree on all counts but this one. -/
theorem toBlob_readable_iff {X : Crates} (H : Host) {files : List Bytes} {db : DescriptorDb X}
    (hdb : DescriptorDb.empty.fromFiles files = .ok db) {name : String} {version : UInt16}
    {d : StateDescriptor} (hd : db.getVersion name version = some d) {depth : ℕ} {s₀ : State}
    (hs₀ : State.fromDefaults db depth d = .ok s₀) (calls : List SetCall) {b : Bytes}
    (hb : (calls.foldl State.set s₀).toBlob H.zlib = .ok b) :
    ((∃ s, State.fromBlob H db depth b = .ok s) ↔
      ∀ v ∈ (calls.foldl State.set s₀).simpleVars, ¬ AtLimit v) ∧
    ∀ (descriptor : VarDescriptor) (n : ℕ), (∀ m ∈ descriptor.count, n = m) →
      (((∃ c, writeVarCount descriptor n = .ok c) ↔ ∃ c, Reads (readVarCount descriptor) c n) ↔
        n ≠ 10000) := by
  refine ⟨?_, fun descriptor n hn => ?_⟩
  · have hset := (SetState.refl s₀).setAll calls
    have hparsed := DescriptorDb.Parsed.empty.fromFiles hdb
    have hholds := DescriptorDb.holds_of_getVersion hd
    constructor
    · rintro ⟨s, hs⟩ v hv hlimit
      obtain ⟨e, he⟩ := ends_setState hparsed hholds hs₀ hset ⟨v, hv, hlimit⟩ hb []
      rw [List.append_nil] at he
      rw [State.fromBlob, he] at hs
      cases hs
    · intro hlimit
      have hrun := reads_setState hparsed hholds hs₀ hset hlimit hb []
      rw [List.append_nil] at hrun
      exact ⟨_, by rw [State.fromBlob, hrun]; rfl⟩
  · rw [exists_writeVarCount_iff, exists_reads_varCount_iff hn]
    omega

theorem testState_readable :
    ∃ s, State.fromBlob plainHost testDb 1 [0x00, 0x80, 0x04, 0xF0, 0xAB, 0x9A, 0x8C, 0x8B, 0x01,
      0x00, 0x00, 0x00, 0x06, 0x01, 0x01, 0x00, 0x10, 0x06, 0x00, 0x00, 0x00, 0x00] = .ok s := by
  have hd : testDb.getVersion "Test" 1 = some testV1 := rfl
  have hs₀ : State.fromDefaults testDb 1 testV1 = .ok testDefaults := rfl
  refine (toBlob_readable_iff plainHost fromFiles_testDescriptors hd hs₀
    [.setInt "iTestVar3" 0 6] rfl).1.2 ?_
  intro v hv hlimit
  rcases hv with _ | ⟨_, _ | ⟨_, _ | _⟩⟩ <;> exact absurd hlimit.2.1 (by decide)

/-! ### A variable of many numbers -/

def books (n : ℕ) : VarDescriptor := ⟨"iBooks", .simple .int, some n, none⟩

def library (n : ℕ) : StateDescriptor := ⟨"Library", 1, [books n]⟩

/-- The state after `set_int("iBooks", 0, 1)`. -/
def oneBook (n : ℕ) : State :=
  ⟨library n, [setVariable (books n) .int ((List.replicate n 0).set 0 1)], [], none, 0⟩

lemma set_library {n : ℕ} (hn : 0 < n) :
    State.set ⟨library n, [freshOf (books n) .int 0], [], none, 0⟩ (.setInt "iBooks" 0 1) =
      oneBook n := by
  have hrun : SetCall.run (freshOf (books n) .int 0) (.setInt "iBooks" 0 1) =
      .ok (setVariable (books n) .int ((List.replicate n 0).set 0 1)) := by
    simp [SetCall.run, Var.setInt, Var.setElem, freshOf, books, setVariable, hn]
  have hvars : modifyFirst Var.name "iBooks" (fun v => SetCall.run v (.setInt "iBooks" 0 1))
      [freshOf (books n) .int 0] =
        .ok (some [setVariable (books n) .int ((List.replicate n 0).set 0 1)]) :=
    (if_pos rfl).trans (congrArg (Except.map fun a => some [a]) hrun)
  rw [State.set, State.modifyVar]
  simp only [SetCall.varName, hvars]
  rfl

lemma one_mem_books {n : ℕ} (hn : 0 < n) : (1 : Int32) ∈ (List.replicate n 0).set 0 1 :=
  List.mem_set (by simpa using hn) 1

lemma exists_toBlob_oneBook {n : ℕ} (hn : n ≤ 10000) (Z : Zlib) :
    ∃ b, (oneBook n).toBlob Z = .ok b := by
  obtain ⟨c, hc⟩ :
      ∃ c, (setVariable (books n) .int ((List.replicate n 0).set 0 1)).write Z = .ok c :=
    exists_write_setVariable Z (.inr (.inr rfl)) rfl rfl (by simpa using hn)
  have hentries : varEntries Z (oneBook n).simpleVars = [(true, .ok c)] := by
    rw [varEntries_eq, ← hc]
    rfl
  have hname : writeSafeStr (oneBook n).descriptor.name .latin1 = Out.put (safeBytes "Library") :=
    writeSafeStr_latin1 (show "Library".toList.length ≤ 0x0FFF by decide)
  rw [State.toBlob, State.write_eq, hentries, hname]
  exact ⟨_, rfl⟩

def libraryFile : Bytes := String.toUTF8
  "STATEDESC Library \x7b VERSION 1 VAR INT iBooks[10000] \x7d" |>.data.toList

def libraryDb : DescriptorDb Crates.plain := DescriptorDb.empty.mergeDescriptors [library 10000]

lemma fromFiles_libraryFile : DescriptorDb.empty.fromFiles [libraryFile] = .ok libraryDb := by
  have hparse : Parser.parse libraryFile = .ok [library 10000] := by decide +kernel
  rw [DescriptorDb.fromFiles, hparse]
  rfl

/-- Ten thousand numbers, one of them set: the blob is written, and refused by the reader. -/
theorem oneBook_unreadable :
    DescriptorDb.empty.fromFiles [libraryFile] = .ok libraryDb ∧
    libraryDb.getVersion "Library" 1 = some (library 10000) ∧
    ∃ s₀ b, State.fromDefaults libraryDb 1 (library 10000) = .ok s₀ ∧
      (s₀.set (.setInt "iBooks" 0 1)).toBlob plainHost.zlib = .ok b ∧
      ∀ s, State.fromBlob plainHost libraryDb 1 b ≠ .ok s := by
  have hholds : libraryDb.getVersion "Library" 1 = some (library 10000) := rfl
  have hs₀ : State.fromDefaults libraryDb 1 (library 10000) =
      .ok ⟨library 10000, [freshOf (books 10000) .int 0], [], none, 0⟩ := rfl
  have hset := set_library (n := 10000) (by decide)
  obtain ⟨b, hb⟩ := exists_toBlob_oneBook (Nat.le_refl 10000) plainHost.zlib
  refine ⟨fromFiles_libraryFile, hholds, _, b, hs₀, hset ▸ hb, fun s hs => ?_⟩
  have hlimit : ∃ v ∈ (oneBook 10000).simpleVars, AtLimit v :=
    ⟨_, List.mem_singleton_self _, rfl, rfl, _, _, rfl, 1, one_mem_books (by decide), by decide⟩
  obtain ⟨e, he⟩ := ends_setState (DescriptorDb.Parsed.empty.fromFiles fromFiles_libraryFile)
    (DescriptorDb.holds_of_getVersion hholds) hs₀ (hset ▸ (SetState.refl _).set _) hlimit hb []
  rw [List.append_nil] at he
  rw [State.fromBlob, he] at hs
  cases hs

end Moulars.Sdl
