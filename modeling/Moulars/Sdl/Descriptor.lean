import Moulars.Hashes
import Moulars.Lib.BTreeMap
import Moulars.Lib.Hash
import Moulars.Plasma.Values

/-!
State descriptors: the types, counts and defaults of the variables of an SDL state, and the
database of all the versions of all descriptors.
-/

namespace Moulars.Sdl

open Lib Lib.Wire Lib.Hash Hashes Plasma

/-! ### Descriptors -/

/-- The variable types whose values are not states themselves. -/
inductive SimpleType
  | ageTimeOfDay | bool | byte | creatable | double | float | int | key | point3 | quat | rgb
  | rgb8 | rgba | rgba8 | short | string32 | time | vector3
  deriving DecidableEq

inductive VarType
  | simple (t : SimpleType)
  | stateDesc (name : String)
  deriving DecidableEq

inductive VarDefault
  | bool (value : Bool)
  | byte (value : UInt8)
  | short (value : Int16)
  | int (value : Int32)
  | float (value : F32)
  | double (value : F64)
  | string32 (value : String)
  | time (value : UnifiedTime)
  | quat (value : Quaternion)
  | vector3 (value : Vector3)
  | rgba (value : ColorRGBA)
  | rgba8 (value : Color32)
  deriving DecidableEq

/-- The defaults a variable of a type can have. -/
def VarType.takes : VarType → VarDefault → Bool
  | .simple .bool, .bool _ => true
  | .simple .byte, .byte _ => true
  | .simple .short, .short _ => true
  | .simple .int, .int _ => true
  | .simple .float, .float _ => true
  | .simple .double, .double _ => true
  | .simple .string32, .string32 _ => true
  | .simple .time, .time _ => true
  | .simple .quat, .quat _ => true
  | .simple .point3, .vector3 _ => true
  | .simple .vector3, .vector3 _ => true
  | .simple .rgb, .rgba _ => true
  | .simple .rgba, .rgba _ => true
  | .simple .rgb8, .rgba8 _ => true
  | .simple .rgba8, .rgba8 _ => true
  | _, _ => false

structure VarDescriptor where
  name : String
  varType : VarType
  /-- The number of values, or none where that is up to each variable. -/
  count : Option ℕ
  default : Option VarDefault
  deriving DecidableEq

/-- The default, where there is one, is of the variable's type. -/
def VarDescriptor.WellTyped (var : VarDescriptor) : Prop :=
  ∀ d ∈ var.default, var.varType.takes d = true

structure StateDescriptor where
  name : String
  version : UInt16
  vars : List VarDescriptor
  deriving DecidableEq

/-! ### The database -/

/-- The versions of each descriptor, by the folding of its name. Every descriptor is filed
under its own name and version. -/
structure DescriptorDb (X : Crates) where
  descriptors : HashMap String (BTreeMap StateDescriptor)
  keyed : ∀ name versions, descriptors.lookup name = some versions →
    ∀ version d, versions.get version = some d →
      X.unicase d.name = name ∧ d.version.toNat = version

namespace DescriptorDb

variable {X : Crates}

def empty : DescriptorDb X := ⟨∅, by simp⟩

def getVersion (db : DescriptorDb X) (name : String) (version : UInt16) :
    Option StateDescriptor :=
  match db.descriptors.lookup (X.unicase name) with
  | some verMap => verMap.get version.toNat
  | none => none

def getLatest (db : DescriptorDb X) (name : String) : Option StateDescriptor :=
  match db.descriptors.lookup (X.unicase name) with
  | some verMap => verMap.nextBack.map Prod.snd
  | none => none

/-- File a descriptor; the first of a name and a version stays. -/
def merge (db : DescriptorDb X) (desc : StateDescriptor) : DescriptorDb X where
  descriptors := db.descriptors.insert (X.unicase desc.name)
    (((db.descriptors.lookup (X.unicase desc.name)).getD BTreeMap.empty).orInsert
      desc.version.toNat desc)
  keyed := by
    intro name versions hv version d hd
    by_cases hname : name = X.unicase desc.name
    · subst hname
      rw [AList.lookup_insert, Option.some.injEq] at hv
      subst hv
      rcases BTreeMap.get_of_get_orInsert hd with ⟨rfl, rfl⟩ | hd
      · exact ⟨rfl, rfl⟩
      · cases hl : db.descriptors.lookup (X.unicase desc.name) with
        | none => simp [hl, BTreeMap.empty, BTreeMap.get] at hd
        | some m =>
          rw [hl] at hd
          exact db.keyed _ m hl version d hd
    · rw [AList.lookup_insert_ne hname] at hv
      exact db.keyed name versions hv version d hd

def mergeDescriptors (db : DescriptorDb X) (descriptors : List StateDescriptor) :
    DescriptorDb X :=
  descriptors.foldl merge db

/-- A descriptor of the database is filed under its own name and version. -/
def Holds (db : DescriptorDb X) (d : StateDescriptor) : Prop :=
  db.getVersion d.name d.version = some d

variable {name : String} {db : DescriptorDb X} {d : StateDescriptor}

lemma getVersion_congr (db : DescriptorDb X) {name' : String} (version : UInt16)
    (h : X.unicase name = X.unicase name') :
    db.getVersion name version = db.getVersion name' version := by
  rw [getVersion, getVersion, h]

lemma holds_of_getVersion {version : UInt16} (h : db.getVersion name version = some d) :
    db.Holds d := by
  have h' := h
  rw [getVersion] at h'
  split at h'
  · rename_i versions hv
    obtain ⟨hname, hver⟩ := db.keyed _ versions hv _ d h'
    rw [Holds, getVersion_congr db d.version hname, UInt16.toNat_inj.1 hver]
    exact h
  · cases h'

lemma holds_of_getLatest (h : db.getLatest name = some d) : db.Holds d := by
  rw [getLatest] at h
  split at h
  · rename_i versions hv
    obtain ⟨⟨version, d'⟩, hlast, rfl⟩ := Option.map_eq_some_iff.1 h
    have hd := BTreeMap.get_of_nextBack hlast
    obtain ⟨hname, hver⟩ := db.keyed _ versions hv _ d' hd
    rw [Holds, getVersion, hname, hv]
    simpa [hver] using hd
  · cases h

lemma getLatest_self (h : db.getLatest name = some d) : db.getLatest d.name = some d := by
  have h' := h
  rw [getLatest] at h
  split at h
  · rename_i versions hv
    obtain ⟨⟨version, d'⟩, hlast, rfl⟩ := Option.map_eq_some_iff.1 h
    have hname := (db.keyed _ versions hv _ d' (BTreeMap.get_of_nextBack hlast)).1
    rw [getLatest] at h' ⊢
    rwa [hname]
  · cases h

lemma exists_getLatest (h : db.Holds d) :
    ∃ e, db.getLatest d.name = some e := by
  rw [Holds, getVersion] at h
  rw [getLatest]
  split at h
  · rename_i versions hv
    have hmem := BTreeMap.get_eq_some.1 h
    have hlast := List.getLast?_eq_getLast_of_ne_nil (List.ne_nil_of_mem hmem)
    exact ⟨_, by rw [BTreeMap.nextBack, hlast]; rfl⟩
  · cases h

lemma holds_of_merge {desc : StateDescriptor} (h : (db.merge desc).Holds d) :
    db.Holds d ∨ d = desc := by
  by_cases hname : X.unicase d.name = X.unicase desc.name
  · rw [Holds, getVersion_congr _ _ hname, getVersion, merge] at h
    simp only [AList.lookup_insert] at h
    rcases BTreeMap.get_of_get_orInsert h with ⟨-, rfl⟩ | h
    · exact .inr rfl
    · left
      rw [Holds, getVersion_congr _ _ hname, getVersion]
      cases hl : db.descriptors.lookup (X.unicase desc.name) with
      | none => simp [hl, BTreeMap.empty, BTreeMap.get] at h
      | some m => simpa [hl] using h
  · -- the versions of other names are as they were
    rw [Holds, getVersion, merge] at h
    simp only [AList.lookup_insert_ne hname] at h
    exact .inl h

lemma holds_mergeDescriptors {ds : List StateDescriptor} (h : (db.mergeDescriptors ds).Holds d) :
    db.Holds d ∨ d ∈ ds := by
  induction ds generalizing db with
  | nil => exact .inl h
  | cons desc ds ih =>
    rcases ih h with h | h
    · rcases holds_of_merge h with h | rfl
      · exact .inl h
      · exact .inr List.mem_cons_self
    · exact .inr (List.mem_cons_of_mem _ h)

end DescriptorDb

end Moulars.Sdl
