import Moulars.Lib.FileTree

/-!
File trees that differ only in what their files hold.

`Revised R t t'` says that `t'` has the directories and the files of `t`, and what a file holds in
`t'` is related by `R` to what it held in `t`. So every path leads where it led, and directories
list the same names, in whatever order.
-/

namespace Moulars.Lib.Files.FileTree

open Lib.Paths Lib.Hash

variable {R : Place → List UInt8 → List UInt8 → Prop} {t t' t'' : FileTree} {p dir : PathBuf}

/-! ### Directories -/

lemma mem_names {q : Place} {name : List Char} :
    name ∈ t.names q ↔ t.nodes.lookup (q ++ [name]) ≠ none := by
  have hkeys : t.nodes.lookup (q ++ [name]) ≠ none ↔ q ++ [name] ∈ t.nodes.keys := by
    rw [← Option.isSome_iff_ne_none, AList.lookup_isSome, AList.mem_keys]
  rw [hkeys, names, List.mem_filterMap]
  constructor
  · rintro ⟨place, hmem, hname⟩
    rw [Option.ite_none_right_eq_some] at hname
    rwa [← hname.1, List.dropLast_append_getLast? name hname.2]
  · intro hmem
    exact ⟨_, hmem, by simp⟩

lemma mem_readDir {names : List (List Char)} (h : t.readDir dir = .ok names) {name : List Char} :
    name ∈ names ↔ ∃ node, t.find (dir.child name) = .ok node := by
  unfold readDir at h
  cases hq : t.resolve dir with
  | error e => simp [hq, Except.bind] at h
  | ok q =>
    rw [hq] at h
    dsimp only [Except.bind] at h
    split at h
    case h_1 hdir =>
      cases h
      rw [mem_names]
      simp only [find_eq_ok, resolve_child_eq_ok, Option.ne_none_iff_exists']
      constructor
      · rintro ⟨node, hnode⟩
        exact ⟨node, q ++ [name], ⟨q, hq, hdir, rfl⟩, hnode⟩
      · rintro ⟨node, r, ⟨d, hd, -, rfl⟩, hnode⟩
        cases hq.symm.trans hd
        exact ⟨node, hnode⟩
    all_goals cases h

lemma exists_readDir : (∃ names, t.readDir dir = .ok names) ↔ t.find dir = .ok .dir := by
  unfold readDir find
  cases t.resolve dir with
  | error e => exact ⟨fun ⟨_, h⟩ => (nomatch h), fun h => (nomatch h)⟩
  | ok q =>
    dsimp only [Except.bind]
    rcases t.nodes.lookup q with _ | _ | _ <;> simp

/-! ### Revisions -/

/-- The same directories and files, with what the files hold related by `R`. -/
structure Revised (R : Place → List UInt8 → List UInt8 → Prop) (t t' : FileTree) : Prop where
  cwd : t'.cwd = t.cwd
  none : ∀ q, t.nodes.lookup q = none → t'.nodes.lookup q = none
  dir : ∀ q, t.nodes.lookup q = some .dir → t'.nodes.lookup q = some .dir
  file : ∀ q content, t.nodes.lookup q = some (.file content) →
    ∃ content', t'.nodes.lookup q = some (.file content') ∧ R q content content'

namespace Revised

lemma refl (hR : ∀ q content, R q content content) (t : FileTree) : Revised R t t :=
  ⟨rfl, fun _ h => h, fun _ h => h, fun q content h => ⟨content, h, hR q content⟩⟩

section Reading

variable (h : Revised R t t')

include h

lemma enter_eq (q : Place) (c : Part) : t'.enter q c = t.enter q c := by
  unfold enter
  rcases hq : t.nodes.lookup q with _ | content | _
  · rw [h.none q hq]
  · obtain ⟨content', hq', -⟩ := h.file q content hq
    rw [hq']
  · rw [h.dir q hq]

lemma resolve_eq (p : PathBuf) : t'.resolve p = t.resolve p := by
  have henter : t'.enter = t.enter := funext fun q => funext (h.enter_eq q)
  rw [resolve, resolve, h.cwd, henter]

lemma find_dir_iff : t'.find p = .ok .dir ↔ t.find p = .ok .dir := by
  rw [find_eq_ok, find_eq_ok, h.resolve_eq]
  refine exists_congr fun q => and_congr_right fun _ => ⟨fun hdir => ?_, h.dir q⟩
  rcases hnode : t.nodes.lookup q with _ | content | _
  · rw [h.none q hnode] at hdir
    cases hdir
  · obtain ⟨content', hnode', -⟩ := h.file q content hnode
    rw [hnode'] at hdir
    cases hdir
  · rfl

lemma read {content : List UInt8} (hread : t.read p = .ok content) :
    ∃ q content', t.resolve p = .ok q ∧ t'.read p = .ok content' ∧ R q content content' := by
  obtain ⟨q, hq, hnode⟩ := find_eq_ok.1 (read_eq_ok.1 hread)
  obtain ⟨content', hnode', hR⟩ := h.file q content hnode
  exact ⟨q, content', hq, read_eq_ok.2 (find_eq_ok.2 ⟨q, (h.resolve_eq p).trans hq, hnode'⟩), hR⟩

lemma read_of_read {content' : List UInt8} (hread : t'.read p = .ok content') :
    ∃ q content, t.resolve p = .ok q ∧ t.read p = .ok content ∧ R q content content' := by
  obtain ⟨q, hq', hnode'⟩ := find_eq_ok.1 (read_eq_ok.1 hread)
  have hq : t.resolve p = .ok q := (h.resolve_eq p).symm.trans hq'
  rcases hnode : t.nodes.lookup q with _ | content | _
  · rw [h.none q hnode] at hnode'
    cases hnode'
  · obtain ⟨_, hsame, hR⟩ := h.file q content hnode
    cases hnode'.symm.trans hsame
    exact ⟨q, content, hq, read_eq_ok.2 (find_eq_ok.2 ⟨q, hq, hnode⟩), hR⟩
  · rw [h.dir q hnode] at hnode'
    cases hnode'

end Reading

lemma write (h : Revised R t t') {before content : List UInt8} (hbefore : t'.read p = .ok before)
    (hR : ∀ q original, t.resolve p = .ok q → t.nodes.lookup q = some (.file original) →
      R q original content) (hwrite : t'.write p content = .ok t'') : Revised R t t'' := by
  obtain ⟨q, hq, -, -, rfl⟩ := write_eq_ok.1 hwrite
  obtain ⟨r, hr, hnode⟩ := find_eq_ok.1 (read_eq_ok.1 hbefore)
  cases hq.symm.trans hr
  have hq' : t.resolve p = .ok q := (h.resolve_eq p).symm.trans hq
  have hother {place : Place} (hne : place ≠ q) :
      (t'.nodes.insert q (.file content)).lookup place = t'.nodes.lookup place :=
    AList.lookup_insert_ne hne
  -- what is found at `q` now was a file before
  refine ⟨h.cwd, fun place hplace => ?_, fun place hplace => ?_, fun place original hplace => ?_⟩
  · have hne : place ≠ q := by
      rintro rfl
      rw [h.none _ hplace] at hnode
      cases hnode
    exact (hother hne).trans (h.none place hplace)
  · have hne : place ≠ q := by
      rintro rfl
      rw [h.dir _ hplace] at hnode
      cases hnode
    exact (hother hne).trans (h.dir place hplace)
  · by_cases hne : place = q
    · subst hne
      exact ⟨content, AList.lookup_insert _, hR place original hq' hplace⟩
    · obtain ⟨content', hnode', hR'⟩ := h.file place original hplace
      exact ⟨content', (hother hne).trans hnode', hR'⟩

end Revised

end Moulars.Lib.Files.FileTree
