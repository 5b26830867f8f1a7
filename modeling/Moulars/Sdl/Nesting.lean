import Moulars.Lib.Digraph
import Moulars.Sdl.Parser
import Moulars.Sdl.State

/-!
Descriptors that refer to one another.

Building the defaults of a descriptor builds the defaults of those its variables refer to, as
often as the variables count. The parser and the database check neither that they exist nor
that this comes to an end.
-/

namespace Moulars.Sdl

open Lib Lib.Wire Lib.Hash Lib.Fallible Lib.Digraph
open Hashes
open Relation

variable {X : Crates}

namespace DescriptorDb

variable {db : DescriptorDb X}

/-- A variable of `d` holds at least one state of the descriptor `e`. -/
def Refers (db : DescriptorDb X) (d e : StateDescriptor) : Prop :=
  ∃ var ∈ d.vars, ∃ name, var.varType = .stateDesc name ∧ var.count.getD 0 ≠ 0 ∧
    db.getLatest name = some e

/-- Every reference is to a descriptor of the database. -/
def Resolves (db : DescriptorDb X) : Prop :=
  ∀ d, db.Holds d → ∀ var ∈ d.vars, ∀ name, var.varType = .stateDesc name →
    ∃ e, db.getLatest name = some e

/-- The values of every variable have room in a vector. -/
def Fits (db : DescriptorDb X) : Prop :=
  ∀ d, db.Holds d → ∀ var ∈ d.vars, var.Fits

variable {d : StateDescriptor}

lemma Refers.holds {e : StateDescriptor} (h : db.Refers d e) : db.Holds e := by
  obtain ⟨var, -, name, -, -, he⟩ := h
  exact holds_of_getLatest he

/-- All that is filed. -/
def all (db : DescriptorDb X) : List StateDescriptor :=
  (HashMap.values db.descriptors).flatMap fun versions => versions.entries.map Prod.snd

lemma mem_all_of_holds (h : db.Holds d) : d ∈ db.all := by
  rw [Holds, getVersion] at h
  split at h
  · rename_i versions hv
    refine List.mem_flatMap.2 ⟨versions, ?_, ?_⟩
    · exact List.mem_map.2 ⟨(_, versions), HashMap.mem_toList.2 hv, rfl⟩
    · exact List.mem_map.2 ⟨(_, d), BTreeMap.get_eq_some.1 h, rfl⟩
  · cases h

/-- The descriptors whose states the variables of `d` hold. -/
def references (db : DescriptorDb X) (d : StateDescriptor) : List (Unit × StateDescriptor) :=
  d.vars.filterMap fun var => match var.varType with
    | .simple _ => none
    | .stateDesc name =>
      if var.count.getD 0 = 0 then none else (db.getLatest name).map fun e => ((), e)

lemma mem_references {e : Unit × StateDescriptor} :
    e ∈ db.references d ↔ db.Refers d e.2 := by
  simp only [references, List.mem_filterMap, Refers]
  refine exists_congr fun var => and_congr_right fun _ => ?_
  cases var.varType with
  | simple t => simp
  | stateDesc name =>
    by_cases hc : var.count.getD 0 = 0
    · simp [hc]
    · cases hl : db.getLatest name <;> simp [hc, hl, Prod.ext_iff]

lemma wellFounded_refers (h : Acyclic db.Refers) : WellFounded (Function.swap db.Refers) :=
  h.wellFounded_of_finite (List.finite_toSet db.all) fun _ _ hr => mem_all_of_holds hr.holds

end DescriptorDb

/-! ### Building defaults -/

variable {n : ℕ} {db : DescriptorDb X} {build : StateDescriptor → Except Fault State}
  {d : StateDescriptor}

lemma exists_collect {α : Type} {x : Except Fault α} :
    (∃ as, collect x n = .ok as) ↔ n = 0 ∨ ∃ a, x = .ok a := by
  induction n with
  | zero => exact ⟨fun _ => .inl rfl, fun _ => ⟨[], rfl⟩⟩
  | succ n ih =>
    constructor
    · rintro ⟨as, h⟩
      obtain ⟨a, ha, -⟩ := bind_eq_ok.1 h
      exact .inr ⟨a, ha⟩
    · rintro (h | ⟨a, ha⟩)
      · cases h
      · obtain ⟨as, has⟩ := ih.2 (.inr ⟨a, ha⟩)
        exact ⟨a :: as, bind_eq_ok.2 ⟨a, ha, map_eq_ok.2 ⟨as, has, rfl⟩⟩⟩

lemma collect_eq_error {α : Type} {x : Except Fault α} {e : Fault} (h : collect x n = .error e) :
    n ≠ 0 ∧ x = .error e := by
  cases x with
  | ok a =>
    obtain ⟨as, has⟩ := exists_collect.2 (.inr ⟨a, rfl⟩ : n = 0 ∨ ∃ b, Except.ok a = .ok b)
    rw [has] at h
    cases h
  | error e' =>
    cases n with
    | zero => cases h
    | succ n =>
      cases h
      exact ⟨n.succ_ne_zero, rfl⟩

lemma mem_collect {α : Type} {x : Except Fault α} {as : List α} (h : collect x n = .ok as) :
    as.length = n ∧ ∀ a ∈ as, x = .ok a := by
  induction n generalizing as with
  | zero =>
    cases h
    exact ⟨rfl, nofun⟩
  | succ n ih =>
    obtain ⟨a, ha, h⟩ := bind_eq_ok.1 h
    obtain ⟨as', has, rfl⟩ := map_eq_ok.1 h
    obtain ⟨hlen, hall⟩ := ih has
    exact ⟨by simp [hlen], List.forall_mem_cons.2 ⟨ha, hall⟩⟩

lemma collect_eq_ok {α : Type} {x y : Except Fault α} (h : ∀ a, x = .ok a → y = .ok a) {as : List α}
    (hc : collect x n = .ok as) : collect y n = .ok as := by
  induction n generalizing as with
  | zero => exact hc
  | succ n ih =>
    obtain ⟨a, ha, hc⟩ := bind_eq_ok.1 hc
    obtain ⟨as', has, rfl⟩ := map_eq_ok.1 hc
    exact bind_eq_ok.2 ⟨a, h a ha, map_eq_ok.2 ⟨as', ih has, rfl⟩⟩

lemma Variable.fromDefaults_of_build {build' : StateDescriptor → Except Fault State}
    (h : ∀ d s, build d = .ok s → build' d = .ok s) {descriptor : VarDescriptor} {v : Variable}
    (hv : Variable.fromDefaults db build descriptor = .ok v) :
    Variable.fromDefaults db build' descriptor = .ok v := by
  obtain ⟨hfits, values, rfl, hvalues⟩ := Variable.fromDefaults_iff.1 hv
  refine Variable.fromDefaults_iff.2 ⟨hfits, values, rfl, ?_⟩
  cases ht : descriptor.varType with
  | simple t => rwa [ht] at hvalues
  | stateDesc name =>
    rw [ht] at hvalues
    obtain ⟨e, states, he, hstates, rfl⟩ := hvalues
    exact ⟨e, states, he, collect_eq_ok (h _) hstates, rfl⟩

lemma State.fromDefaults_succ {depth : ℕ} {s : State} (h : State.fromDefaults db depth d = .ok s) :
    State.fromDefaults db (depth + 1) d = .ok s := by
  induction depth generalizing d s with
  | zero => cases h
  | succ depth ih =>
    obtain ⟨vars, hvars, rfl⟩ := map_eq_ok.1 h
    refine map_eq_ok.2 ⟨vars, mapM_eq_ok.2 ?_, rfl⟩
    exact (mapM_eq_ok.1 hvars).imp fun _ _ => Variable.fromDefaults_of_build fun _ _ => ih

lemma State.fromDefaults_of_le {m : ℕ} (hmn : m ≤ n) {s : State}
    (h : State.fromDefaults db m d = .ok s) : State.fromDefaults db n d = .ok s := by
  induction hmn with
  | refl => exact h
  | step _ ih => exact State.fromDefaults_succ ih

lemma State.fromDefaults_unique {m : ℕ} {s t : State} (hs : State.fromDefaults db m d = .ok s)
    (ht : State.fromDefaults db n d = .ok t) : s = t :=
  Except.ok.inj ((State.fromDefaults_of_le (le_max_left m n) hs).symm.trans
    (State.fromDefaults_of_le (le_max_right m n) ht))

lemma Variable.exists_fromDefaults {var : VarDescriptor} (hvar : var.WellTyped) :
    (∃ v, Variable.fromDefaults db build var = .ok v) ↔
      var.Fits ∧ ∀ name, var.varType = .stateDesc name →
        ∃ e, db.getLatest name = some e ∧ (var.count.getD 0 = 0 ∨ ∃ s, build e = .ok s) := by
  have hbuilt : (∃ v, Variable.fromDefaults db build var = .ok v) ↔ var.Fits ∧ _ :=
    (exists_congr fun v => Variable.fromDefaults_iff).trans exists_and_left
  rw [hbuilt]
  refine and_congr_right fun _ => ?_
  cases ht : var.varType with
  | simple t =>
    obtain ⟨e, he⟩ := t.exists_defaultElem fun d hd => ht ▸ hvar d hd
    constructor
    · intro _ name heq
      cases heq
    · exact fun _ => ⟨_, _, rfl, e, he, rfl⟩
  | stateDesc name =>
    constructor
    · rintro ⟨v, values, -, e, states, he, hstates, -⟩ _ heq
      cases heq
      exact ⟨e, he, exists_collect.1 ⟨states, hstates⟩⟩
    · intro h
      obtain ⟨e, he, hcollect⟩ := h name rfl
      obtain ⟨states, hstates⟩ := exists_collect.2 hcollect
      exact ⟨_, _, rfl, e, states, he, hstates, rfl⟩

lemma Variable.fromDefaults_eq_error {var : VarDescriptor} (hvar : var.WellTyped) {e : Fault}
    (h : Variable.fromDefaults db build var = .error e) :
    e = Slices.capacityOverflow ∨ ∃ name, var.varType = .stateDesc name ∧
      (db.getLatest name = none ∨ ∃ d, db.getLatest name = some d ∧ var.count.getD 0 ≠ 0 ∧
        build d = .error e) := by
  have hroom (size : ℕ) : Slices.withCapacity size (var.count.getD 0) = .ok () ∨
      Slices.withCapacity size (var.count.getD 0) = .error Slices.capacityOverflow := by
    unfold Slices.withCapacity
    exact ite_eq_or_eq _ _ _
  unfold Variable.fromDefaults at h
  cases ht : var.varType with
  | simple t =>
    obtain ⟨d, hd⟩ := t.exists_defaultElem fun d hd => ht ▸ hvar d hd
    simp only [ht, hd] at h
    rcases hroom t.elemSize with hr | hr <;> rw [Except.bind, hr] at h <;> cases h
    exact .inl rfl
  | stateDesc name =>
    refine or_iff_not_imp_left.2 fun hne => ⟨name, rfl, ?_⟩
    cases hl : db.getLatest name with
    | none => exact .inl rfl
    | some d =>
      simp only [ht, hl] at h
      rcases hroom stateSize with hr | hr
      · rw [hr] at h
        cases hc : collect (build d) (var.count.getD 0) with
        | error e' =>
          simp only [hc, Except.bind, Except.map, Except.error.injEq] at h
          obtain ⟨hcount, hbuild⟩ := collect_eq_error hc
          exact .inr ⟨d, rfl, hcount, h ▸ hbuild⟩
        | ok states =>
          rw [hc] at h
          cases h
      · rw [hr] at h
        cases h
        exact absurd rfl hne

section Building

variable {db : DescriptorDb X}

variable {d : StateDescriptor}

lemma State.exists_fromDefaults (hdb : db.Parsed) (hfits : db.Fits) (hres : db.Resolves) (depth : ℕ)
    (hd : db.Holds d) :
    (∃ s, State.fromDefaults db depth d = .ok s) ↔ (walk db.references depth d).isSome := by
  induction depth generalizing d with
  | zero =>
    constructor
    · rintro ⟨s, h⟩
      cases h
    · intro h
      simp [walk] at h
  | succ depth ih =>
    have hvars : (∃ s, State.fromDefaults db (depth + 1) d = .ok s) ↔
        ∀ var ∈ d.vars, ∃ v,
          Variable.fromDefaults db (State.fromDefaults db depth) var = .ok v := by
      rw [← exists_mapM_eq_ok, State.fromDefaults]
      constructor
      · rintro ⟨s, h⟩
        exact (map_eq_ok.1 h).imp fun _ hs => hs.1
      · rintro ⟨vars, h⟩
        exact ⟨_, map_eq_ok.2 ⟨vars, h, rfl⟩⟩
    rw [hvars, walk_succ_isSome]
    constructor
    · intro h e he
      obtain ⟨var, hvar, name, hname, hcount, hlatest⟩ := DescriptorDb.mem_references.1 he
      obtain ⟨e', he', hbuilt⟩ := ((Variable.exists_fromDefaults ((hdb d hd).typed var hvar)).1
        (h var hvar)).2 name hname
      obtain rfl : e.2 = e' := Option.some.inj (hlatest.symm.trans he')
      exact (ih (DescriptorDb.holds_of_getLatest hlatest)).1 (hbuilt.resolve_left hcount)
    · intro h var hvar
      refine (Variable.exists_fromDefaults ((hdb d hd).typed var hvar)).2
        ⟨hfits d hd var hvar, fun name hname => ?_⟩
      obtain ⟨e, he⟩ := hres d hd var hvar name hname
      refine ⟨e, he, or_iff_not_imp_left.2 fun hcount => ?_⟩
      exact (ih (DescriptorDb.holds_of_getLatest he)).2
        (h ((), e) (DescriptorDb.mem_references.2 ⟨var, hvar, name, hname, hcount, he⟩))

lemma resolves_of_fromDefaults
    (h : ∀ d, db.Holds d → ∃ depth s, State.fromDefaults db depth d = .ok s) :
    db.Resolves ∧ db.Fits := by
  have hbuilt : ∀ d, db.Holds d → ∀ var ∈ d.vars, ∃ depth v,
      Variable.fromDefaults db (State.fromDefaults db depth) var = .ok v := by
    intro d hd var hvar
    obtain ⟨depth, s, hs⟩ := h d hd
    cases depth with
    | zero => cases hs
    | succ depth =>
      obtain ⟨vars, hvars, -⟩ := map_eq_ok.1 hs
      exact ⟨depth, exists_mapM_eq_ok.1 ⟨vars, hvars⟩ var hvar⟩
  constructor
  · intro d hd var hvar name hname
    obtain ⟨depth, v, hv⟩ := hbuilt d hd var hvar
    obtain ⟨-, values, -, hvalues⟩ := Variable.fromDefaults_iff.1 hv
    rw [hname] at hvalues
    obtain ⟨e, -, he, -⟩ := hvalues
    exact ⟨e, he⟩
  · intro d hd var hvar
    obtain ⟨depth, v, hv⟩ := hbuilt d hd var hvar
    exact (Variable.fromDefaults_iff.1 hv).1

lemma acyclic_of_fromDefaults (hdb : db.Parsed)
    (h : ∀ d, db.Holds d → ∃ depth s, State.fromDefaults db depth d = .ok s) :
    Acyclic db.Refers := by
  intro d hcycle
  -- a descriptor on a cycle is referred to, so it is in the database
  have hd : db.Holds d := by
    obtain ⟨e, -, he⟩ := TransGen.tail'_iff.1 hcycle
    exact he.holds
  obtain ⟨depth, hs⟩ := h d hd
  obtain ⟨hres, hfits⟩ := resolves_of_fromDefaults h
  refine not_ends_of_cycle (fun a b hab => ?_) hcycle
    ⟨depth, (State.exists_fromDefaults hdb hfits hres depth hd).1 hs⟩
  exact ⟨((), b), DescriptorDb.mem_references.2 hab, rfl⟩

lemma ends_references (hacyclic : Acyclic db.Refers) (d : StateDescriptor) :
    Ends db.references d :=
  ends_of_wellFounded (fun _ _ he => DescriptorDb.mem_references.1 he)
    (DescriptorDb.wellFounded_refers hacyclic) d

lemma State.fromDefaults_eq_error (hdb : db.Parsed) (hres : db.Resolves) {depth : ℕ}
    (hd : db.Holds d) (hwalk : (walk db.references depth d).isSome) {e : Fault}
    (h : State.fromDefaults db depth d = .error e) : e = Slices.capacityOverflow := by
  induction depth generalizing d with
  | zero => simp [walk] at hwalk
  | succ depth ih =>
    have herror : d.vars.mapM (Variable.fromDefaults db (State.fromDefaults db depth)) =
        .error e := by
      rw [State.fromDefaults] at h
      cases hm : d.vars.mapM (Variable.fromDefaults db (State.fromDefaults db depth)) with
      | error e' =>
        rw [hm] at h
        cases h
        rfl
      | ok vars =>
        rw [hm] at h
        cases h
    obtain ⟨var, hvar, hv⟩ := exists_of_mapM_eq_error herror
    rcases Variable.fromDefaults_eq_error ((hdb d hd).typed var hvar) hv with
      hover | ⟨name, hname, hnone | ⟨d', hd', hcount, hbuild⟩⟩
    · exact hover
    · obtain ⟨d', hd'⟩ := hres d hd var hvar name hname
      cases hnone.symm.trans hd'
    · have href : ((), d') ∈ db.references d :=
        DescriptorDb.mem_references.2 ⟨var, hvar, name, hname, hcount, hd'⟩
      exact ih (DescriptorDb.holds_of_getLatest hd') ((walk_succ_isSome _ _).1 hwalk _ href) hbuild

lemma exists_built (hdb : db.Parsed) (hfits : db.Fits) (hres : db.Resolves)
    (hacyclic : Acyclic db.Refers) (hd : db.Holds d) :
    ∃ depth s, State.fromDefaults db depth d = .ok s := by
  obtain ⟨depth, hwalk⟩ := ends_references hacyclic d
  exact ⟨depth, (State.exists_fromDefaults hdb hfits hres depth hd).2 hwalk⟩

/-- **When all defaults can be built**: for a database made of files the parser accepts, the
defaults of every descriptor can be built if and only if all references resolve, no variable
counts more values than a vector has room for, and no chain of references through variables that
hold a state comes back to where it started. -/
theorem all_defaults_built_iff {X : Crates} {files : List Bytes} {db : DescriptorDb X}
    (hdb : DescriptorDb.empty.fromFiles files = .ok db) :
    (∀ d, db.Holds d → ∃ depth s, State.fromDefaults db depth d = .ok s) ↔
      db.Resolves ∧ db.Fits ∧ Acyclic db.Refers := by
  have hparsed := DescriptorDb.Parsed.empty.fromFiles hdb
  constructor
  · intro h
    obtain ⟨hres, hfits⟩ := resolves_of_fromDefaults h
    exact ⟨hres, hfits, acyclic_of_fromDefaults hparsed h⟩
  · rintro ⟨hres, hfits, hacyclic⟩ d hd
    exact exists_built hparsed hfits hres hacyclic hd

end Building

def nestedFile : Bytes := String.toUTF8
  "STATEDESC Door \x7b VERSION 1 VAR BOOL open[1] \x7d
  STATEDESC Hall \x7b VERSION 1 VAR $Door doors[2] \x7d" |>.data.toList

def doorV1 : StateDescriptor := ⟨"Door", 1, [⟨"open", .simple .bool, some 1, none⟩]⟩
def hallV1 : StateDescriptor := ⟨"Hall", 1, [⟨"doors", .stateDesc "Door", some 2, none⟩]⟩

def nestedDb : DescriptorDb Crates.plain := DescriptorDb.empty.mergeDescriptors [doorV1, hallV1]

theorem nestedDb_built :
    DescriptorDb.empty.fromFiles [nestedFile] = .ok nestedDb ∧
      nestedDb.Resolves ∧ nestedDb.Fits ∧ Acyclic nestedDb.Refers := by
  have hfile : DescriptorDb.empty.fromFiles [nestedFile] = .ok nestedDb := by
    have hparse : Parser.parse nestedFile = .ok [doorV1, hallV1] := by decide +kernel
    rw [DescriptorDb.fromFiles, hparse]
    rfl
  refine ⟨hfile, (all_defaults_built_iff hfile).1 fun d hd => ?_⟩
  have hall : d = hallV1 ∨ d = doorV1 := by
    have hmem := DescriptorDb.mem_all_of_holds hd
    rw [show nestedDb.all = [hallV1, doorV1] from rfl] at hmem
    simpa using hmem
  rcases hall with rfl | rfl
  · exact ⟨2, _, rfl⟩
  · exact ⟨1, _, rfl⟩

def loopFile : Bytes := String.toUTF8
  "STATEDESC Loop \x7b VERSION 1 VAR $Loop again[1] \x7d" |>.data.toList

def loopV1 : StateDescriptor := ⟨"Loop", 1, [⟨"again", .stateDesc "Loop", some 1, none⟩]⟩

def loopDb : DescriptorDb Crates.plain := DescriptorDb.empty.mergeDescriptors [loopV1]

/-- A descriptor that refers to itself is accepted, and its defaults are never built. -/
theorem loop_never_built :
    DescriptorDb.empty.fromFiles [loopFile] = .ok loopDb ∧ loopDb.Holds loopV1 ∧
      ∀ depth s, State.fromDefaults loopDb depth loopV1 ≠ .ok s := by
  refine ⟨?_, rfl, fun depth => ?_⟩
  · have hparse : Parser.parse loopFile = .ok [loopV1] := by decide +kernel
    rw [DescriptorDb.fromFiles, hparse]
    rfl
  · induction depth with
    | zero =>
      intro s hs
      cases hs
    | succ depth ih =>
      intro s hs
      obtain ⟨vars, hvars, -⟩ := map_eq_ok.1 hs
      obtain ⟨v, hv⟩ := exists_mapM_eq_ok.1 ⟨vars, hvars⟩ _ (List.mem_singleton.2 rfl)
      obtain ⟨e, he, hbuilt⟩ := ((Variable.exists_fromDefaults (fun _ h => by cases h)).1
        ⟨v, hv⟩).2 "Loop" rfl
      obtain rfl : loopV1 = e := Option.some.inj he
      obtain ⟨s', hs'⟩ := hbuilt.resolve_left (by decide)
      exact ih s' hs'

end Moulars.Sdl
