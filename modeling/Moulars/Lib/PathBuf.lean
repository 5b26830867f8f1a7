import Moulars.Lib.Paths

/-!
Paths as their parts.

Two `PathBuf`s are equal if they have the same parts, whatever stands between them in their
texts. Here a path is its parts and nothing else, and the text made of it has one separator
between any two.
-/

namespace Moulars.Lib.Paths

/-- What stands between the separators. -/
def Part.text : Part → List Char
  | .parentDir => ['.', '.']
  | .normal name => name

/-- What stands before the last dot of a file name, or all of it. -/
def stemOf (file : List Char) : List Char :=
  let pieces := file.splitOn '.'
  if pieces.length = 1 ∨ pieces.dropLast = [[]] then file
  else List.intercalate ['.'] pieces.dropLast

structure PathBuf where
  root : Bool
  parts : List Part
  deriving DecidableEq

namespace PathBuf

def ofText (p : Path) : PathBuf := ⟨hasRoot p, Paths.parts p⟩

def text (p : PathBuf) : List Char :=
  (if p.root then ['/'] else []) ++ List.intercalate ['/'] (p.parts.map Part.text)

def join (base p : PathBuf) : PathBuf :=
  if p.root then p else ⟨base.root, base.parts ++ p.parts⟩

def child (p : PathBuf) (name : List Char) : PathBuf := ⟨p.root, p.parts ++ [.normal name]⟩

def fileName (p : PathBuf) : Option (List Char) :=
  match p.parts.getLast? with
  | some (.normal name) => some name
  | _ => none

def extension (p : PathBuf) : Option (List Char) := p.fileName.bind extensionOf

def fileStem (p : PathBuf) : Option (List Char) := p.fileName.map stemOf

/-- `Path::with_extension`: a path without a file name stays as it is. -/
def withExtension (p : PathBuf) (ext : List Char) : PathBuf :=
  match p.fileName with
  | none => p
  | some name =>
    let name := if ext = [] then stemOf name else stemOf name ++ '.' :: ext
    { p with parts := p.parts.dropLast ++ (Part.ofPiece name).toList }

def stripPrefix (p base : PathBuf) : Option PathBuf :=
  if p.root = base.root ∧ base.parts <+: p.parts then
    some ⟨false, p.parts.drop base.parts.length⟩
  else if base.root = false ∧ base.parts = [] then some p else none

def startsWith (p base : PathBuf) : Bool := (p.stripPrefix base).isSome

@[simp] lemma root_child (p : PathBuf) (name : List Char) : (p.child name).root = p.root := rfl

@[simp] lemma parts_child (p : PathBuf) (name : List Char) :
    (p.child name).parts = p.parts ++ [.normal name] := rfl

@[simp] lemma fileName_child (p : PathBuf) (name : List Char) :
    (p.child name).fileName = some name := by
  simp [fileName]

lemma eq_child_of_fileName {p : PathBuf} {name : List Char} (h : p.fileName = some name) :
    ∃ dir : PathBuf, p = dir.child name := by
  obtain ⟨root, parts⟩ := p
  rw [fileName] at h
  rcases List.eq_nil_or_concat parts with rfl | ⟨dirs, last, rfl⟩
  · cases h
  · rw [List.concat_eq_append, List.getLast?_concat] at h
    cases last with
    | parentDir => cases h
    | normal last =>
      cases h
      exact ⟨⟨root, dirs⟩, by simp [child]⟩

lemma join_child (base p : PathBuf) (name : List Char) :
    base.join (p.child name) = (base.join p).child name := by
  by_cases h : p.root
  · simp [join, h]
  · simp [join, child, h]

lemma stripPrefix_append (base : PathBuf) (rest : List Part) :
    (⟨base.root, base.parts ++ rest⟩ : PathBuf).stripPrefix base = some ⟨false, rest⟩ := by
  simp [stripPrefix]

end PathBuf

/-! ### Extensions -/

section Extensions

variable {name ext : List Char}

lemma splitOn_append_dot (name : List Char) (h : '.' ∉ ext) :
    (name ++ '.' :: ext).splitOn '.' = name.splitOn '.' ++ [ext] := by
  rw [List.splitOn_append_cons_self, List.splitOn_eq_singleton h]

lemma splitOn_eq_nil_piece : name.splitOn '.' = [[]] ↔ name = [] := by
  constructor
  · intro h
    have hjoin : List.intercalate ['.'] (name.splitOn '.') = name := List.intercalate_splitOn '.'
    rw [h] at hjoin
    exact hjoin.symm
  · rintro rfl
    rfl

lemma stemOf_append (hname : name ≠ []) (h : '.' ∉ ext) : stemOf (name ++ '.' :: ext) = name := by
  have hlen : (name.splitOn '.' ++ [ext]).length ≠ 1 := by
    simp
  rw [stemOf, splitOn_append_dot name h]
  simp only [List.dropLast_concat, splitOn_eq_nil_piece, hname, hlen, or_self, if_false]
  exact List.intercalate_splitOn '.'

lemma extensionOf_append (hname : name ≠ []) (h : '.' ∉ ext) :
    extensionOf (name ++ '.' :: ext) = some ext := by
  have hlen : (name.splitOn '.' ++ [ext]).length ≠ 1 := by
    simp
  rw [extensionOf, splitOn_append_dot name h]
  simp only [List.dropLast_concat, splitOn_eq_nil_piece, hname, hlen, or_self, if_false,
    List.getLast?_concat]

lemma intercalate_concat {α : Type} (x : α) {pieces : List (List α)} (h : pieces ≠ [])
    (last : List α) :
    List.intercalate [x] (pieces ++ [last]) = List.intercalate [x] pieces ++ x :: last := by
  induction pieces with
  | nil => exact absurd rfl h
  | cons piece pieces ih =>
    cases pieces with
    | nil => simp [List.intercalate]
    | cons next pieces =>
      have htail := ih (by simp)
      simp only [List.intercalate, List.cons_append, List.intersperse_cons_cons,
        List.flatten_cons, List.append_assoc] at htail ⊢
      rw [htail]

lemma stemOf_of_none (h : extensionOf name = none) : stemOf name = name := by
  rw [extensionOf] at h
  simp only [ite_eq_left_iff, List.getLast?_eq_none_iff] at h
  rw [stemOf]
  split
  · rfl
  · exact absurd (h ‹_›) (List.splitOn_ne_nil '.' name)

lemma stemOf_append_extensionOf (h : extensionOf name = some ext) :
    stemOf name ++ '.' :: ext = name := by
  rw [extensionOf] at h
  rw [stemOf]
  split at h
  · cases h
  · rename_i hpieces
    obtain ⟨pieces, hsplit⟩ := List.getLast?_eq_some_iff.1 h
    have hne : pieces ≠ [] := by
      rintro rfl
      simp [hsplit] at hpieces
    rw [if_neg hpieces, hsplit, List.dropLast_concat]
    have hjoin : List.intercalate ['.'] (name.splitOn '.') = name := List.intercalate_splitOn '.'
    rwa [hsplit, intercalate_concat '.' hne] at hjoin

lemma ofPiece_append (hext : ext ≠ []) (h : '.' ∉ ext) :
    Part.ofPiece (name ++ '.' :: ext) = some (.normal (name ++ '.' :: ext)) := by
  obtain ⟨ext, last, rfl⟩ := (List.eq_nil_or_concat ext).resolve_left hext
  have hlast : last ≠ '.' := by
    rintro rfl
    exact h (by simp)
  have hends (s : List Char) : name ++ '.' :: ext.concat last ≠ s ++ ['.'] := by
    intro he
    rw [List.concat_eq_append, ← List.cons_append, ← List.append_assoc] at he
    exact hlast (List.append_singleton_inj.1 he).2
  have hdot : name ++ '.' :: ext.concat last ≠ ['.'] := hends []
  have hdots : name ++ '.' :: ext.concat last ≠ ['.', '.'] := hends ['.']
  rw [Part.ofPiece, if_neg (not_or.2 ⟨by simp, hdot⟩), if_neg hdots]

lemma PathBuf.withExtension_child (dir : PathBuf) (hext : ext ≠ []) :
    (dir.child name).withExtension ext =
      ⟨dir.root, dir.parts ++ (Part.ofPiece (stemOf name ++ '.' :: ext)).toList⟩ := by
  simp [withExtension, hext]

lemma PathBuf.withExtension_nil_child (dir : PathBuf)
    (hname : Part.ofPiece name = some (.normal name)) (h : '.' ∉ ext) :
    (dir.child (name ++ '.' :: ext)).withExtension [] = dir.child name := by
  have hne : name ≠ [] := by
    rintro rfl
    cases hname
  simp only [withExtension, fileName_child, if_true, stemOf_append hne h, hname]
  simp [child]

end Extensions

/-! ### Texts -/

/-- A part that is read back from its text. -/
structure Part.Plain (c : Part) : Prop where
  ofPiece : Part.ofPiece c.text = some c
  noSlash : '/' ∉ c.text

lemma Part.Plain.text_ne_nil {c : Part} (h : c.Plain) : c.text ≠ [] := by
  intro hnil
  have hpiece := h.ofPiece
  rw [hnil] at hpiece
  cases hpiece

lemma filterMap_ofPiece {cs : List Part} (h : ∀ c ∈ cs, c.Plain) :
    (cs.map Part.text).filterMap Part.ofPiece = cs := by
  rw [List.filterMap_map]
  calc
    cs.filterMap (Part.ofPiece ∘ Part.text) = cs.filterMap some :=
      List.filterMap_congr fun c hc => (h c hc).ofPiece
    _ = cs := List.filterMap_some

lemma hasRoot_intercalate {cs : List Part} (h : ∀ c ∈ cs, c.Plain) :
    hasRoot (List.intercalate ['/'] (cs.map Part.text)) = false := by
  cases cs with
  | nil => rfl
  | cons c cs =>
    have hc := h c (by simp)
    obtain ⟨x, s, hs⟩ := List.exists_cons_of_ne_nil hc.text_ne_nil
    have hx : x ≠ '/' := by
      rintro rfl
      exact hc.noSlash (by simp [hs])
    cases cs with
    | nil => simpa [List.intercalate, hasRoot, hs] using hx
    | cons d cs => simpa [List.intercalate, hasRoot, hs] using hx

lemma mem_intercalate {α : Type} {x c : α} {pieces : List (List α)}
    (h : c ∈ List.intercalate [x] pieces) : c = x ∨ ∃ piece ∈ pieces, c ∈ piece := by
  induction pieces with
  | nil => cases h
  | cons piece pieces ih =>
    cases pieces with
    | nil => exact .inr ⟨piece, by simp, by simpa [List.intercalate] using h⟩
    | cons next pieces =>
      simp only [List.intercalate, List.intersperse_cons_cons, List.flatten_cons, List.mem_append,
        List.mem_singleton] at h ih
      rcases h with h | h | h
      · exact .inr ⟨piece, by simp, h⟩
      · exact .inl h
      · exact (ih h).imp_right fun ⟨other, hmem, hc⟩ => ⟨other, by simp [hmem], hc⟩

lemma parts_intercalate {cs : List Part} (h : ∀ c ∈ cs, c.Plain) :
    Paths.parts (List.intercalate ['/'] (cs.map Part.text)) = cs := by
  by_cases hnil : cs = []
  · subst hnil
    rfl
  · rw [Paths.parts, List.splitOn_intercalate '/' _ (by simpa using hnil)]
    · exact filterMap_ofPiece h
    · intro l hl
      obtain ⟨c, hc, rfl⟩ := List.mem_map.1 hl
      exact (h c hc).noSlash

/-- **A path is read back from its text.** -/
theorem PathBuf.ofText_text {p : PathBuf} (h : ∀ c ∈ p.parts, c.Plain) : ofText p.text = p := by
  obtain ⟨root, cs⟩ := p
  cases root with
  | false =>
    simp only [ofText, text, Bool.false_eq_true, if_false, List.nil_append, parts_intercalate h,
      hasRoot_intercalate h]
  | true =>
    have hparts := parts_append_slash [] (List.intercalate ['/'] (cs.map Part.text))
    rw [List.nil_append, parts_nil, List.nil_append, parts_intercalate h] at hparts
    simp only [ofText, text, if_true, List.singleton_append, hparts]
    rfl

lemma Part.text_of_ofPiece {s : List Char} {c : Part} (h : Part.ofPiece s = some c) :
    c.text = s := by
  unfold Part.ofPiece at h
  split_ifs at h with hnil hdots
  · cases h
    exact hdots.symm
  · cases h
    rfl

lemma plain_of_mem_parts {p : Path} {c : Part} (h : c ∈ Paths.parts p) :
    c.Plain ∧ c.text ⊆ p := by
  obtain ⟨piece, hpiece, hc⟩ := List.mem_filterMap.1 h
  obtain ⟨hslash, hinfix⟩ := mem_splitOn _ (Nat.le_refl p.length) hpiece
  have htext := Part.text_of_ofPiece hc
  rw [← htext] at hc hslash hinfix
  exact ⟨⟨hc, hslash⟩, hinfix.subset⟩

end Moulars.Lib.Paths
