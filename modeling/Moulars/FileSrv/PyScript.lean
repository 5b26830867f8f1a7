import Moulars.Lib.PathBuf
import Moulars.Lib.PyLiteral
import Moulars.Lib.Wire

/-!
The script with which the Python sources are compiled.

`compyle_dir` writes one call of `py_compile.compile` for each source, with three paths in single
quotes. What `py_escape` makes of a path never ends its literal, but an apostrophe comes out as two
double quotes: such a path is read as another one.
-/

namespace Moulars.FileSrv

open Lib.Wire Lib.Paths Lib.PyLiteral

def replaceChar (c : Char) (new s : List Char) : List Char :=
  s.flatMap fun ch => if ch = c then new else [ch]

def pyEscape (path : List Char) : List Char :=
  replaceChar '\'' ['\\', '"', '"'] (replaceChar '\\' ['\\', '\\'] path)

/-- The texts of the three paths of a source: where it is read, where its code goes, and under
which name it is compiled. -/
structure PySource where
  srcPath : List Char
  cfile : List Char
  dfile : List Char
  deriving DecidableEq

/-- A source below the directory, with the code in a temporary directory. Where there is glue code,
a temporary file with the source and the glue is compiled instead. -/
def pySource (pythonDir compileTempDir : PathBuf) (tempSrc : Option (PathBuf → PathBuf))
    (pyFile : PathBuf) : Except Fault PySource :=
  match pyFile.stripPrefix pythonDir with
  | none => .error (.panic
      "called `Result::unwrap()` on an `Err` value: StripPrefixError(())")
  | some dfile =>
    let cfile := compileTempDir.join (dfile.withExtension "pyc".toList)
    let srcPath := match tempSrc with
      | none => pyFile
      | some tempSrc => tempSrc pyFile
    .ok ⟨srcPath.text, cfile.text, dfile.text⟩

/-- A path between the quotes of the format string. -/
def quoted (path : List Char) : List Char := '\'' :: (pyEscape path ++ ['\''])

def compileLine (s : PySource) : List Char :=
  "py_compile.compile(".toList ++ (quoted s.srcPath ++ (", cfile=".toList ++ (quoted s.cfile ++
    (", dfile=".toList ++ (quoted s.dfile ++ ")\n".toList)))))

def compyleSrc (sources : List PySource) : List Char :=
  "import py_compile\n".toList ++ sources.flatMap compileLine

/-- The script of `compyle_dir`. -/
def compyleScript (pythonDir compileTempDir : PathBuf) (tempSrc : Option (PathBuf → PathBuf))
    (pySources : List PathBuf) : Except Fault (List Char) :=
  (pySources.mapM (pySource pythonDir compileTempDir tempSrc)).map compyleSrc

/-! ### What Python reads -/

def expect (w text : List Char) : Option (List Char) :=
  if w <+: text then some (text.drop w.length) else none

section Reading

variable (other : Escapes)

/-- One call, with the paths that are meant. -/
def readCall (text : List Char) : Option (PySource × List Char) := do
  let text ← expect "py_compile.compile(".toList text
  let (srcPath, text) ← literal other text
  let text ← expect ", cfile=".toList text
  let (cfile, text) ← literal other text
  let text ← expect ", dfile=".toList text
  let (dfile, text) ← literal other text
  let text ← expect ")\n".toList text
  pure (⟨srcPath, cfile, dfile⟩, text)

/-- All calls up to the end of the text, at most the given number of them. -/
def readCalls : ℕ → List Char → Option (List PySource)
  | _, [] => some []
  | 0, _ => none
  | n + 1, text => do
    let (s, text) ← readCall other text
    let sources ← readCalls n text
    pure (s :: sources)

def readScript (text : List Char) : Option (List PySource) := do
  let text ← expect "import py_compile\n".toList text
  readCalls other text.length text

end Reading

/-! ### Literals -/

/-- What a path is read as. -/
def meant (path : List Char) : List Char := replaceChar '\'' ['"', '"'] path

/-- A path that fits on a line. -/
def OneLine (path : List Char) : Prop := ∀ c ∈ path, c ∉ lineEnds

instance (path : List Char) : Decidable (OneLine path) :=
  List.decidableBAll (fun c => c ∉ lineEnds) path

lemma pyEscape_cons (c : Char) (path : List Char) : pyEscape (c :: path) =
    (if c = '\\' then ['\\', '\\'] else if c = '\'' then ['\\', '"', '"'] else [c]) ++
      pyEscape path := by
  rw [pyEscape, pyEscape, replaceChar, replaceChar, List.flatMap_cons, List.flatMap_append]
  congr 1
  by_cases hback : c = '\\'
  · subst hback
    rfl
  · simp [hback]

lemma meant_cons (c : Char) (path : List Char) :
    meant (c :: path) = (if c = '\'' then ['"', '"'] else [c]) ++ meant path := rfl

lemma notMem_replaceChar {c : Char} {new : List Char} (h : c ∉ new) (s : List Char) :
    c ∉ replaceChar c new s := by
  intro hmem
  obtain ⟨ch, -, hch⟩ := List.mem_flatMap.1 hmem
  split at hch
  · exact h hch
  · rename_i hne
    exact hne (List.mem_singleton.1 hch).symm

lemma meant_eq_iff {path : List Char} : meant path = path ↔ '\'' ∉ path := by
  constructor
  · intro h
    rw [← h]
    exact notMem_replaceChar (by decide) path
  · intro h
    induction path with
    | nil => rfl
    | cons c path ih =>
      rw [List.mem_cons, not_or] at h
      rw [meant_cons, if_neg (Ne.symm h.1), ih h.2]
      rfl

lemma quote_notMem_pyEscape (path : List Char) : '\'' ∉ pyEscape path :=
  notMem_replaceChar (by decide) _

section Literals

variable (other : Escapes) {path rest : List Char}

lemma items_pyEscape (h : OneLine path) {n : ℕ} (hn : (pyEscape path).length < n) :
    items other n (pyEscape path ++ '\'' :: rest) = some (meant path, rest) := by
  induction path generalizing n with
  | nil =>
    obtain ⟨n, rfl⟩ := Nat.exists_eq_add_one_of_ne_zero (Nat.ne_of_gt hn)
    rfl
  | cons c path ih =>
    have hpath : OneLine path := fun c hc => h c (by simp [hc])
    rw [pyEscape_cons] at hn ⊢
    rw [meant_cons]
    by_cases hback : c = '\\'
    · subst hback
      rw [if_pos rfl] at hn ⊢
      obtain ⟨n, rfl⟩ : ∃ m, n = m + 1 := ⟨n - 1, by omega⟩
      refine items_escaped other (.inl rfl) (ih hpath ?_)
      simp only [List.length_append, List.length_cons, List.length_nil] at hn
      omega
    · rw [if_neg hback] at hn ⊢
      by_cases hquote : c = '\''
      · -- the second quote stands for itself
        subst hquote
        rw [if_pos rfl] at hn ⊢
        obtain ⟨n, rfl⟩ : ∃ m, n = m + 2 := ⟨n - 2, by
          simp only [List.length_append, List.length_cons, List.length_nil] at hn
          omega⟩
        refine items_escaped other (.inr (.inr rfl)) ?_
        refine items_plain other (by decide) (by decide) (by decide) (ih hpath ?_)
        simp only [List.length_append, List.length_cons, List.length_nil] at hn
        omega
      · rw [if_neg hquote] at hn ⊢
        rw [if_neg hquote]
        obtain ⟨n, rfl⟩ : ∃ m, n = m + 1 := ⟨n - 1, by omega⟩
        refine items_plain other hquote hback (h c (by simp)) (ih hpath ?_)
        simp only [List.length_append, List.length_cons, List.length_nil] at hn
        omega

/-- **An escaped path is one literal**, whatever follows it but another quote. -/
lemma literal_quoted (h : OneLine path) (hrest : rest.head? ≠ some '\'') :
    literal other (quoted path ++ rest) = some (meant path, rest) := by
  rw [quoted, List.cons_append, List.append_assoc, List.singleton_append, literal_eq,
    items_pyEscape other h]
  · simp
  · intro tail htail
    cases hesc : pyEscape path with
    | nil =>
      rw [hesc] at htail
      obtain rfl := (List.cons.inj htail).2
      exact hrest rfl
    | cons c text =>
      rw [hesc] at htail
      obtain rfl : c = '\'' := (List.cons.inj htail).1
      exact quote_notMem_pyEscape path (hesc ▸ List.mem_cons_self)

end Literals

/-! ### The script -/

def PySource.meant (s : PySource) : PySource :=
  ⟨FileSrv.meant s.srcPath, FileSrv.meant s.cfile, FileSrv.meant s.dfile⟩

def PySource.paths (s : PySource) : List (List Char) := [s.srcPath, s.cfile, s.dfile]

lemma PySource.meant_eq_iff {s : PySource} : s.meant = s ↔ ∀ path ∈ s.paths, '\'' ∉ path := by
  obtain ⟨srcPath, cfile, dfile⟩ := s
  simp only [PySource.meant, PySource.mk.injEq, FileSrv.meant_eq_iff, PySource.paths,
    List.forall_mem_cons, List.not_mem_nil, false_imp_iff, implies_true, and_true]

lemma expect_append (w text : List Char) : expect w (w ++ text) = some text := by
  rw [expect, if_pos (List.prefix_append w text), List.drop_left]

lemma literal_quoted_append (other : Escapes) {path w : List Char} (h : OneLine path) (hw : w ≠ [])
    (hquote : w.head? ≠ some '\'') (text : List Char) :
    literal other (quoted path ++ (w ++ text)) = some (meant path, w ++ text) := by
  refine literal_quoted other h ?_
  rwa [List.head?_append_of_ne_nil _ hw]

lemma compileLine_eq (s : PySource) : compileLine s =
    "py_compile.compile(".toList ++ (quoted s.srcPath ++ (", cfile=".toList ++ (quoted s.cfile ++
      (", dfile=".toList ++ (quoted s.dfile ++ ")\n".toList))))) := rfl

lemma compyleSrc_eq (sources : List PySource) :
    compyleSrc sources = "import py_compile\n".toList ++ sources.flatMap compileLine := rfl

section Script

variable (other : Escapes)

lemma readCall_compileLine {s : PySource} (h : ∀ path ∈ s.paths, OneLine path) (text : List Char) :
    readCall other (compileLine s ++ text) = some (s.meant, text) := by
  have hsrc := h s.srcPath (by simp [PySource.paths])
  have hc := h s.cfile (by simp [PySource.paths])
  have hd := h s.dfile (by simp [PySource.paths])
  have hcfile : ", cfile=".toList ≠ [] ∧ ", cfile=".toList.head? ≠ some '\'' := by decide
  have hdfile : ", dfile=".toList ≠ [] ∧ ", dfile=".toList.head? ≠ some '\'' := by decide
  have hend : ")\n".toList ≠ [] ∧ ")\n".toList.head? ≠ some '\'' := by decide
  simp only [compileLine_eq, List.append_assoc, readCall]
  -- what the texts are does not matter any more
  generalize "py_compile.compile(".toList = wstart, ", cfile=".toList = wcfile,
    ", dfile=".toList = wdfile, ")\n".toList = wend at *
  simp only [expect_append, Option.bind_eq_bind, Option.bind_some,
    literal_quoted_append other hsrc hcfile.1 hcfile.2,
    literal_quoted_append other hc hdfile.1 hdfile.2, literal_quoted_append other hd hend.1 hend.2]
  rfl

lemma length_compileLine (s : PySource) : 0 < (compileLine s).length := by
  have htext : 0 < "py_compile.compile(".toList.length := by decide
  rw [compileLine_eq, List.length_append]
  omega

lemma readCalls_compileLines {sources : List PySource}
    (h : ∀ s ∈ sources, ∀ path ∈ s.paths, OneLine path) {n : ℕ} (hn : sources.length ≤ n) :
    readCalls other n (sources.flatMap compileLine) = some (sources.map PySource.meant) := by
  induction sources generalizing n with
  | nil => cases n <;> rfl
  | cons s sources ih =>
    obtain ⟨n, rfl⟩ : ∃ m, n = m + 1 := ⟨n - 1, by rw [List.length_cons] at hn; omega⟩
    have hne : compileLine s ++ sources.flatMap compileLine ≠ [] :=
      List.append_ne_nil_of_left_ne_nil (List.ne_nil_of_length_pos (length_compileLine s)) _
    rw [List.flatMap_cons, readCalls, readCall_compileLine other (h s (by simp))]
    · simp only [Option.bind_eq_bind, Option.bind_some]
      rw [ih (fun s hs => h s (by simp [hs])) (by rw [List.length_cons] at hn; omega)]
      rfl
    · exact hne

lemma length_compileLines (sources : List PySource) :
    sources.length ≤ (sources.flatMap compileLine).length := by
  induction sources with
  | nil => exact Nat.le_refl _
  | cons s sources ih =>
    have hline := length_compileLine s
    rw [List.flatMap_cons, List.length_append, List.length_cons]
    omega

lemma readScript_compyleSrc {sources : List PySource}
    (h : ∀ s ∈ sources, ∀ path ∈ s.paths, OneLine path) :
    readScript other (compyleSrc sources) = some (sources.map PySource.meant) := by
  rw [readScript, compyleSrc_eq]
  generalize "import py_compile\n".toList = wimport
  simp only [expect_append, Option.bind_eq_bind, Option.bind_some]
  exact readCalls_compileLines other h (length_compileLines sources)

end Script

/-- **A path is read back exactly if it has no apostrophe**: by itself in its quotes, and in the
script for some sources. -/
theorem escaped_read_iff (other : Escapes) :
    (∀ path rest : List Char, OneLine path → rest.head? ≠ some '\'' →
      (literal other (quoted path ++ rest) = some (path, rest) ↔ '\'' ∉ path)) ∧
    ∀ (pythonDir compileTempDir : PathBuf) (tempSrc : Option (PathBuf → PathBuf))
      (pySources : List PathBuf) (sources : List PySource),
      pySources.mapM (pySource pythonDir compileTempDir tempSrc) = .ok sources →
      (∀ s ∈ sources, ∀ path ∈ s.paths, OneLine path) →
      ∃ script, compyleScript pythonDir compileTempDir tempSrc pySources = .ok script ∧
        (readScript other script = some sources ↔
          ∀ s ∈ sources, ∀ path ∈ s.paths, '\'' ∉ path) := by
  refine ⟨fun path rest hpath hrest => ?_,
    fun pythonDir compileTempDir tempSrc pySources sources hsources h => ?_⟩
  · rw [literal_quoted other hpath hrest, ← meant_eq_iff]
    simp
  · refine ⟨compyleSrc sources, by rw [compyleScript, hsources]; rfl, ?_⟩
    rw [readScript_compyleSrc other h, Option.some_inj]
    simp only [← PySource.meant_eq_iff]
    have hmap := List.map_inj_left (f := PySource.meant) (g := id) (l := sources)
    rw [List.map_id] at hmap
    exact hmap

/-- No other escape sequences. -/
def noEscapes : Escapes := fun _ _ => none

theorem sources_read : literal noEscapes (quoted "C:\\Uru \"2\".py".toList ++ [',']) =
      some ("C:\\Uru \"2\".py".toList, [',']) ∧
    ∃ script, compyleScript (.ofText "/py".toList) (.ofText "/tmp/c".toList) none
        [.ofText "/py/ki.py".toList] = .ok script ∧
      readScript noEscapes script =
        some [⟨"/py/ki.py".toList, "/tmp/c/ki.pyc".toList, "ki.py".toList⟩] := by
  obtain ⟨hliteral, hscript⟩ := escaped_read_iff noEscapes
  refine ⟨(hliteral _ _ (by decide) (by decide)).2 (by decide), ?_⟩
  obtain ⟨script, hok, hiff⟩ := hscript (.ofText "/py".toList) (.ofText "/tmp/c".toList) none
    [.ofText "/py/ki.py".toList] [⟨"/py/ki.py".toList, "/tmp/c/ki.pyc".toList, "ki.py".toList⟩]
    (by decide) (by decide)
  exact ⟨script, hok, hiff.2 (by decide)⟩

/-- A source with an apostrophe in its name is looked for under another one. -/
theorem apostrophe_misread :
    literal noEscapes (quoted "Yeesha's.py".toList ++ [',']) =
      some ("Yeesha\"\"s.py".toList, [',']) := by
  decide

end Moulars.FileSrv
