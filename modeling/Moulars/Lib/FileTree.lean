import Moulars.Lib.Hash
import Moulars.Lib.PathBuf

/-!
Files and directories, as far as a program sees them that reads, creates, overwrites and removes
files by their paths.

A path is followed from the root or the current directory, through directories only. There are no
links, so an operation on a file changes what is found at its place and nowhere else.
-/

namespace Moulars.Lib.Files

open Lib.Paths Lib.Hash

inductive Node
  | file (content : List UInt8)
  | dir
  deriving DecidableEq

inductive IoKind
  | notFound
  | notADirectory
  | isADirectory
  deriving DecidableEq

/-- A place: the names from the root down. -/
abbrev Place := List (List Char)

def Place.follow (q : Place) : Part → Place
  -- above the root is the root
  | .parentDir => q.dropLast
  | .normal name => q ++ [name]

structure FileTree where
  cwd : Place
  nodes : HashMap Place Node
  deriving DecidableEq

namespace FileTree

section Operations

variable (t : FileTree)

/-- One part further, from a place that has to be a directory. -/
def enter (q : Place) (c : Part) : Except IoKind Place :=
  match t.nodes.lookup q with
  | some .dir => .ok (Place.follow q c)
  | some (.file _) => .error .notADirectory
  | none => .error .notFound

def resolve (p : PathBuf) : Except IoKind Place :=
  p.parts.foldlM t.enter (if p.root then [] else t.cwd)

def find (p : PathBuf) : Except IoKind Node :=
  (t.resolve p).bind fun q => match t.nodes.lookup q with
    | some node => .ok node
    | none => .error .notFound

def contains (p : PathBuf) : Bool := (t.find p).toOption.isSome

def isDir (p : PathBuf) : Bool := (t.find p).toOption == some .dir

def read (p : PathBuf) : Except IoKind (List UInt8) :=
  (t.find p).bind fun
    | .file content => .ok content
    | .dir => .error .isADirectory

/-- Create a file or replace what it holds. A path that does not end in a name is that of a
directory. -/
def write (p : PathBuf) (content : List UInt8) : Except IoKind FileTree :=
  (t.resolve p).bind fun q =>
    if p.fileName = none ∨ t.nodes.lookup q = some .dir then .error .isADirectory
    else .ok { t with nodes := t.nodes.insert q (.file content) }

def remove (p : PathBuf) : Except IoKind FileTree :=
  (t.resolve p).bind fun q =>
    if p.fileName = none ∨ t.nodes.lookup q = some .dir then .error .isADirectory
    else if t.nodes.lookup q = none then .error .notFound
    else .ok { t with nodes := t.nodes.erase q }

def names (q : Place) : List (List Char) :=
  t.nodes.keys.filterMap fun place => if place.dropLast = q then place.getLast? else none

def readDir (p : PathBuf) : Except IoKind (List (List Char)) :=
  (t.resolve p).bind fun q => match t.nodes.lookup q with
    | some .dir => .ok (t.names q)
    | some (.file _) => .error .notADirectory
    | none => .error .notFound

end Operations

/-- The tree with the root as its current directory and these nodes below it. -/
def ofList (nodes : List (String × Node)) : FileTree where
  cwd := []
  nodes := nodes.foldl (fun m n => m.insert (n.1.toList.splitOn '/') n.2) (AList.singleton [] .dir)

/-! ### Finding -/

variable {t t' t'' : FileTree} {p : PathBuf} {q : Place}

lemma resolve_child (dir : PathBuf) (name : List Char) :
    t.resolve (dir.child name) = (t.resolve dir).bind fun q => t.enter q (.normal name) := by
  simp only [resolve, PathBuf.parts_child, PathBuf.root_child, List.foldlM_append,
    List.foldlM_cons, List.foldlM_nil, bind_pure]
  rfl

lemma resolve_child_eq_ok {dir : PathBuf} {name : List Char} :
    t.resolve (dir.child name) = .ok q ↔
      ∃ d, t.resolve dir = .ok d ∧ t.nodes.lookup d = some .dir ∧ q = d ++ [name] := by
  rw [resolve_child]
  cases hd : t.resolve dir with
  | error e => exact ⟨nofun, fun ⟨d, h, _⟩ => nomatch h⟩
  | ok d =>
    simp only [Except.bind, enter, Except.ok.injEq, exists_eq_left']
    split
    · simp_all [Place.follow, eq_comm]
    · simp_all
    · simp_all

lemma find_eq_ok {node : Node} :
    t.find p = .ok node ↔ ∃ q, t.resolve p = .ok q ∧ t.nodes.lookup q = some node := by
  rw [find]
  cases hq : t.resolve p with
  | error e => exact ⟨nofun, fun ⟨q, h, _⟩ => nomatch h⟩
  | ok q =>
    simp only [Except.bind, Except.ok.injEq, exists_eq_left']
    split <;> simp_all

variable {content : List UInt8}

lemma read_eq_ok :
    t.read p = .ok content ↔ t.find p = .ok (.file content) := by
  rw [read]
  cases hn : t.find p with
  | error e => exact ⟨nofun, nofun⟩
  | ok node => cases node <;> simp [Except.bind]

lemma write_eq_ok :
    t.write p content = .ok t' ↔ ∃ q, t.resolve p = .ok q ∧ p.fileName ≠ none ∧
      t.nodes.lookup q ≠ some .dir ∧
        t' = { t with nodes := t.nodes.insert q (.file content) } := by
  rw [write]
  cases hq : t.resolve p with
  | error e => exact ⟨nofun, fun ⟨q, h, _⟩ => nomatch h⟩
  | ok q =>
    simp only [Except.bind, Except.ok.injEq, exists_eq_left']
    split
    · rename_i h
      exact ⟨nofun, fun ⟨hname, hdir, _⟩ => absurd h (not_or.2 ⟨hname, hdir⟩)⟩
    · simp_all [eq_comm]

lemma exists_write (h : t.write p content = .ok t') (other : List UInt8) :
    ∃ t'', t.write p other = .ok t'' := by
  obtain ⟨q, hq, hname, hdir, -⟩ := write_eq_ok.1 h
  exact ⟨_, write_eq_ok.2 ⟨q, hq, hname, hdir, rfl⟩⟩

lemma remove_eq_ok :
    t.remove p = .ok t' ↔ ∃ q, t.resolve p = .ok q ∧ p.fileName ≠ none ∧
      t.nodes.lookup q ≠ some .dir ∧ t.nodes.lookup q ≠ none ∧
        t' = { t with nodes := t.nodes.erase q } := by
  rw [remove]
  cases hq : t.resolve p with
  | error e => exact ⟨nofun, fun ⟨q, h, _⟩ => nomatch h⟩
  | ok q =>
    simp only [Except.bind, Except.ok.injEq, exists_eq_left']
    split
    · rename_i h
      exact ⟨nofun, fun ⟨hname, hdir, _⟩ => absurd h (not_or.2 ⟨hname, hdir⟩)⟩
    · split <;> simp_all [eq_comm]

lemma exists_remove (h : t.read p = .ok content) (hname : p.fileName ≠ none) :
    ∃ t', t.remove p = .ok t' := by
  obtain ⟨q, hq, hnode⟩ := find_eq_ok.1 (read_eq_ok.1 h)
  exact ⟨_, remove_eq_ok.2 ⟨q, hq, hname, by simp [hnode], by simp [hnode], rfl⟩⟩

/-! ### Edits -/

/-- Files changed at one place only. -/
structure Edit (q : Place) (t t' : FileTree) : Prop where
  cwd : t'.cwd = t.cwd
  same : ∀ r, r ≠ q → t'.nodes.lookup r = t.nodes.lookup r
  before : t.nodes.lookup q ≠ some .dir
  after : t'.nodes.lookup q ≠ some .dir

lemma Edit.trans (h : Edit q t t') (h' : Edit q t' t'') : Edit q t t'' where
  cwd := h'.cwd.trans h.cwd
  same r hr := (h'.same r hr).trans (h.same r hr)
  before := h.before
  after := h'.after

lemma edit_write (hq : t.resolve p = .ok q) (h : t.write p content = .ok t') : Edit q t t' := by
  obtain ⟨r, hr, -, hdir, rfl⟩ := write_eq_ok.1 h
  cases hq.symm.trans hr
  exact ⟨rfl, fun r hr => AList.lookup_insert_ne hr, hdir, by simp [AList.lookup_insert]⟩

lemma edit_remove (hq : t.resolve p = .ok q) (h : t.remove p = .ok t') : Edit q t t' := by
  obtain ⟨r, hr, -, hdir, -, rfl⟩ := remove_eq_ok.1 h
  cases hq.symm.trans hr
  exact ⟨rfl, fun r hr => AList.lookup_erase_ne hr, hdir, by simp [AList.lookup_erase]⟩

namespace Edit

variable (h : Edit q t t')

include h

lemma dir_iff (r : Place) : t'.nodes.lookup r = some .dir ↔ t.nodes.lookup r = some .dir := by
  by_cases hr : r = q
  · subst hr
    exact ⟨fun hd => absurd hd h.after, fun hd => absurd hd h.before⟩
  · rw [h.same r hr]

lemma foldlM_enter_iff (cs : List Part) {d r : Place} :
    cs.foldlM t'.enter d = .ok r ↔ cs.foldlM t.enter d = .ok r := by
  induction cs generalizing d with
  | nil => rfl
  | cons c cs ih =>
    have henter : ∀ e, t'.enter d c = .ok e ↔ t.enter d c = .ok e := by
      intro e
      have hd := h.dir_iff d
      unfold enter
      split <;> split <;> simp_all
    rw [List.foldlM_cons, List.foldlM_cons]
    cases ht : t.enter d c with
    | ok e =>
      rw [(henter e).2 ht]
      exact ih
    | error k =>
      cases ht' : t'.enter d c with
      | ok e =>
        rw [(henter e).1 ht'] at ht
        cases ht
      | error k' => exact ⟨nofun, nofun⟩

lemma resolve_iff {p : PathBuf} {r : Place} : t'.resolve p = .ok r ↔ t.resolve p = .ok r := by
  rw [resolve, resolve, h.cwd]
  exact h.foldlM_enter_iff p.parts

lemma find_iff {p : PathBuf} (hp : t.resolve p ≠ .ok q) {node : Node} :
    t'.find p = .ok node ↔ t.find p = .ok node := by
  rw [find_eq_ok, find_eq_ok]
  refine exists_congr fun r => ?_
  rw [h.resolve_iff]
  refine and_congr_right fun hr => ?_
  rw [h.same r (by rintro rfl; exact hp hr)]

lemma read_iff {p : PathBuf} (hp : t.resolve p ≠ .ok q) {content : List UInt8} :
    t'.read p = .ok content ↔ t.read p = .ok content := by
  rw [read_eq_ok, read_eq_ok, h.find_iff hp]

end Edit

lemma exists_write_write (h : t.write p content = .ok t') (other : List UInt8) :
    ∃ t'', t'.write p other = .ok t'' := by
  obtain ⟨q, hq, hname, hdir, -⟩ := write_eq_ok.1 h
  have hedit := edit_write hq h
  exact ⟨_, write_eq_ok.2 ⟨q, hedit.resolve_iff.2 hq, hname, hedit.after, rfl⟩⟩

lemma read_of_write (h : t.write p content = .ok t') :
    t'.read p = .ok content := by
  obtain ⟨q, hq, -, hdir, rfl⟩ := write_eq_ok.1 h
  refine read_eq_ok.2 (find_eq_ok.2 ⟨q, ?_, by simp [AList.lookup_insert]⟩)
  exact (edit_write hq h).resolve_iff.2 hq

/-- Two paths that do not lead to the same place. -/
def Apart (t : FileTree) (p r : PathBuf) : Prop := ∀ q, t.resolve p = .ok q → t.resolve r ≠ .ok q

instance (t : FileTree) (p r : PathBuf) : Decidable (t.Apart p r) :=
  match h : t.resolve p with
  | .error _ => isTrue fun q hq => nomatch h.symm.trans hq
  | .ok q => decidable_of_iff (t.resolve r ≠ .ok q) (by simp [Apart, h])

lemma apart_child {dir dir' : PathBuf} {name other : List Char} (h : name ≠ other) :
    t.Apart (dir.child name) (dir'.child other) := by
  intro q hq hother
  obtain ⟨d, -, -, hname⟩ := resolve_child_eq_ok.1 hq
  obtain ⟨d', -, -, hname'⟩ := resolve_child_eq_ok.1 hother
  exact h (List.append_singleton_inj.1 (hname.symm.trans hname')).2

/-- At most the file with this path was changed. -/
def Touched (p : PathBuf) (t t' : FileTree) : Prop :=
  t' = t ∨ ∃ q, p.fileName ≠ none ∧ t.resolve p = .ok q ∧ Edit q t t'

namespace Touched

lemma refl (p : PathBuf) (t : FileTree) : Touched p t t := .inl rfl

lemma trans (h : Touched p t t') (h' : Touched p t' t'') : Touched p t t'' := by
  rcases h with rfl | ⟨q, hname, hq, hedit⟩
  · exact h'
  · rcases h' with rfl | ⟨r, -, hr, hedit'⟩
    · exact .inr ⟨q, hname, hq, hedit⟩
    · cases hq.symm.trans (hedit.resolve_iff.1 hr)
      exact .inr ⟨q, hname, hq, hedit.trans hedit'⟩

lemma write {content : List UInt8} (h : t.write p content = .ok t') : Touched p t t' := by
  obtain ⟨q, hq, hname, -⟩ := write_eq_ok.1 h
  exact .inr ⟨q, hname, hq, edit_write hq h⟩

lemma remove (h : t.remove p = .ok t') : Touched p t t' := by
  obtain ⟨q, hq, hname, -⟩ := remove_eq_ok.1 h
  exact .inr ⟨q, hname, hq, edit_remove hq h⟩

lemma find_iff (h : Touched p t t') {r : PathBuf} (hr : t.Apart p r) {node : Node} :
    t'.find r = .ok node ↔ t.find r = .ok node := by
  rcases h with rfl | ⟨q, -, hq, hedit⟩
  · rfl
  · exact hedit.find_iff (hr q hq)

lemma read_iff (h : Touched p t t') {r : PathBuf} (hr : t.Apart p r) {content : List UInt8} :
    t'.read r = .ok content ↔ t.read r = .ok content := by
  rw [read_eq_ok, read_eq_ok, h.find_iff hr]

end Touched

end FileTree

end Moulars.Lib.Files
