import Moulars.Lib.Keyed
import Moulars.Lib.Slices
import Moulars.Lib.Sparse
import Moulars.Sdl.Variable

/-!
SDL states: built from the defaults of a descriptor, changed through setters, saved to and restored
from blobs, and carried over to the latest version of their descriptor.

The functions that recurse over descriptors take the nesting depth the stack has room for. Readers
return the value they would have changed in place; the source drops that value whenever reading
fails.
-/

namespace Moulars.Sdl

open Lib Lib.Wire Lib.Sparse Lib.Keyed Lib.Fallible
open Hashes
open Plasma

structure State where
  descriptor : StateDescriptor
  simpleVars : List (Var State)
  statedescVars : List (Var State)
  object : Option Uoid
  flags : UInt16

abbrev Variable := Var State

def stackOverflow : Fault := .panic "stack overflow"

variable {X : Crates}

/-! ### Defaults -/

/-- The same value `n` times, each of them built anew. -/
def collect {α : Type} (x : Except Fault α) : ℕ → Except Fault (List α)
  | 0 => .ok []
  | n + 1 => x.bind fun a => (collect x n).map fun as => a :: as

def stateSize : ℕ := 112

/-- `Variable::from_defaults`, with `build` for the states inside. -/
def Variable.fromDefaults (db : DescriptorDb X) (build : StateDescriptor → Except Fault State)
    (descriptor : VarDescriptor) : Except Fault Variable :=
  let count := descriptor.count.getD 0
  let values : Except Fault (VarValues State) := match descriptor.varType with
    | .simple t => (t.defaultElem descriptor.default).bind fun default =>
      (Slices.withCapacity t.elemSize count).map fun _ => .simple t (List.replicate count default)
    | .stateDesc name => match db.getLatest name with
      | some statedesc => (Slices.withCapacity stateSize count).bind fun _ =>
        (collect (build statedesc) count).map .stateDesc
      | none => .error (.panic s!"Unknown state descriptor '{name}'")
  values.map fun values => ⟨descriptor, values, UnifiedTime.default, "", false⟩

/-- The values of the variable have room in a vector. -/
def VarDescriptor.Fits (var : VarDescriptor) : Prop :=
  (match var.varType with
    | .simple t => t.elemSize
    | .stateDesc _ => stateSize) * var.count.getD 0 < 2 ^ 63

lemma Variable.fromDefaults_iff {db : DescriptorDb X}
    {build : StateDescriptor → Except Fault State} {var : VarDescriptor} {v : Variable} :
    Variable.fromDefaults db build var = .ok v ↔ var.Fits ∧ ∃ values,
      v = ⟨var, values, UnifiedTime.default, "", false⟩ ∧ match var.varType with
        | .simple t => ∃ d, t.defaultElem var.default = .ok d ∧
          values = .simple t (List.replicate (var.count.getD 0) d)
        | .stateDesc name => ∃ e states, db.getLatest name = some e ∧
          collect (build e) (var.count.getD 0) = .ok states ∧ values = .stateDesc states := by
  unfold Variable.fromDefaults VarDescriptor.Fits
  rw [map_eq_ok]
  cases var.varType with
  | simple t =>
    simp only [bind_eq_ok, map_eq_ok, Slices.withCapacity_eq_ok]
    constructor
    · rintro ⟨values, ⟨d, hd, -, hfits, rfl⟩, rfl⟩
      exact ⟨hfits, _, rfl, d, hd, rfl⟩
    · rintro ⟨hfits, values, rfl, d, hd, rfl⟩
      exact ⟨_, ⟨d, hd, (), hfits, rfl⟩, rfl⟩
  | stateDesc name =>
    dsimp only
    cases db.getLatest name with
    | none => simp
    | some e =>
      simp only [bind_eq_ok, map_eq_ok, Slices.withCapacity_eq_ok]
      constructor
      · rintro ⟨values, ⟨-, hfits, states, hstates, rfl⟩, rfl⟩
        exact ⟨hfits, _, rfl, e, states, rfl, hstates, rfl⟩
      · rintro ⟨hfits, values, rfl, e', states, heq, hstates, rfl⟩
        cases heq
        exact ⟨_, ⟨(), hfits, states, hstates, rfl⟩, rfl⟩

def Var.isStateDesc {σ : Type} (v : Var σ) : Bool := match v.descriptor.varType with
  | .stateDesc _ => true
  | .simple _ => false

def State.fromDefaults (db : DescriptorDb X) : ℕ → StateDescriptor → Except Fault State
  | 0, _ => .error stackOverflow
  | depth + 1, descriptor =>
    (descriptor.vars.mapM (Variable.fromDefaults db (State.fromDefaults db depth))).map
      fun vars => ⟨descriptor, vars.filter fun v => !v.isStateDesc,
        vars.filter fun v => v.isStateDesc, none, 0⟩

mutual

def State.isDefault : State → Except Fault Bool
  | ⟨_, simpleVars, statedescVars, _, _⟩ => (allDefault simpleVars).bind fun simple =>
    if simple then allDefault statedescVars else .ok false

/-- `iter().all(Variable::is_default)`, up to the first that is not. -/
def allDefault : List (Var State) → Except Fault Bool
  | [] => .ok true
  | v :: vs => v.isDefault.bind fun same => if same then allDefault vs else .ok false

def Var.isDefault : Var State → Except Fault Bool
  | ⟨descriptor, values, _, _, _⟩ => match descriptor.count with
    | none => .ok false
    | some _ => match descriptor.varType with
      | .simple t => isDefaultSimple descriptor.default values t
      | .stateDesc _ => values.statesDefault

def VarValues.statesDefault : VarValues State → Except Fault Bool
  | .stateDesc states => allStatesDefault states
  | .simple _ _ => .error (unreachable "")

def allStatesDefault : List State → Except Fault Bool
  | [] => .ok true
  | s :: states => s.isDefault.bind fun same => if same then allStatesDefault states else .ok false

end

def State.isDirty (s : State) : Bool :=
  s.simpleVars.any (fun v => v.dirty) || s.statedescVars.any fun v => v.dirty

/-! ### Writing -/

def writeCompressedSize (maxHint value : ℕ) : Out :=
  let tooLarge := Out.fail (.error s!"Size {value} is too large for stream")
  if maxHint < 0x100 then
    if value < 2 ^ 8 then Out.put (le 1 value) else tooLarge
  else if maxHint < 0x10000 then
    if value < 2 ^ 16 then Out.put (le 2 value) else tooLarge
  else if value < 2 ^ 32 then Out.put (le 4 value) else tooLarge

def ioVersion : UInt8 := 6

/-- The states of a variable, after its flags. -/
def writeStatedesc (descriptor : VarDescriptor) (entries : List (Bool × Out)) : Out :=
  (if entries.length < 2 ^ 32 then
    (if descriptor.count = none then Out.put (le 4 entries.length) else Out.put [])
  else Out.fail (.error s!"Too many values for stream: {entries.length}")) ++
    writeDirty (writeCompressedSize (descriptor.count.getD 0)) entries

mutual

def State.write (Z : Zlib) : State → Out
  | ⟨descriptor, simpleVars, statedescVars, _, flags⟩ =>
    let maxHint := descriptor.vars.length
    Out.u16 flags ++ (Out.u8 ioVersion ++
      (writeDirty (writeCompressedSize maxHint) (varEntries Z simpleVars) ++
        writeDirty (writeCompressedSize maxHint) (varEntries Z statedescVars)))

/-- The variables as entries of a sparse list. -/
def varEntries (Z : Zlib) : List (Var State) → List (Bool × Out)
  | [] => []
  | v :: vs => (v.dirty, v.write Z) :: varEntries Z vs

def Var.write (Z : Zlib) : Var State → Out
  | ⟨descriptor, values, timestamp, hint, dirty⟩ =>
    writeNotificationHint hint ++ match descriptor.varType with
      | .simple _ =>
        Var.writeSimple Z ⟨descriptor, values, timestamp, hint, dirty⟩
          (Var.isDefault ⟨descriptor, values, timestamp, hint, dirty⟩)
      | .stateDesc _ => Out.u8 0 ++ (values.stateEntries Z).bind (writeStatedesc descriptor)

def VarValues.stateEntries (Z : Zlib) : VarValues State → Except Fault (List (Bool × Out))
  | .stateDesc states => .ok (stateEntries Z states)
  | .simple _ _ => .error (unreachable "")

def stateEntries (Z : Zlib) : List State → List (Bool × Out)
  | [] => []
  | s :: states => (s.isDirty, s.write Z) :: stateEntries Z states

end

/-! ### Reading -/

def readCompressedSize (maxHint : ℕ) : Reader ℕ :=
  if maxHint < 0x100 then Reader.word 1
  else if maxHint < 0x10000 then Reader.word 2
  else Reader.word 4

/-- A computation on the side that leaves the stream alone. -/
def Reader.lift {α : Type} (x : Except Fault α) : Reader α :=
  ⟨fun s => x.map fun a => (a, s)⟩

/-- `Variable::read_statedesc`, with `build` and `read` for the states inside. -/
def Variable.readStatedesc (build : Except Fault State) (read : State → Reader State)
    (v : Variable) : Reader Variable := do
  let _ ← Reader.u8
  let totalCount ← readVarCount v.descriptor
  let values ← Reader.lift (collect build totalCount)
  let states ← readDirty (readCompressedSize (v.descriptor.count.getD 0))
    (fun idx => .error s!"Invalid value index {idx}") read values
  pure { v with values := .stateDesc states }

/-- The value of a variable, after its hint. -/
def Variable.readValue (H : Host) (db : DescriptorDb X) (depth : ℕ)
    (read : State → Reader State) (v : Variable) : Reader Variable :=
  match v.descriptor.varType with
  | .stateDesc name => match db.getLatest name with
    | some statedesc => v.readStatedesc (State.fromDefaults db depth statedesc) read
    | none => Reader.fail (.error s!"No such descriptor {name}")
  | .simple t => v.readSimple H depth t

def Variable.read (H : Host) (db : DescriptorDb X) (depth : ℕ) (read : State → Reader State)
    (v : Variable) : Reader Variable := do
  let notificationHint ← readNotificationHint
  let v ← v.readValue H db depth read
  pure { v with notificationHint, dirty := true }

def State.readVars (read : Variable → Reader Variable) (s : State) : Reader State := do
  let maxHint := s.descriptor.vars.length
  let badIndex := fun idx => Fault.error s!"Invalid variable index {idx}"
  let simpleVars ← readDirty (readCompressedSize maxHint) badIndex read s.simpleVars
  let statedescVars ← readDirty (readCompressedSize maxHint) badIndex read s.statedescVars
  pure { s with simpleVars, statedescVars }

def State.read (H : Host) (db : DescriptorDb X) : ℕ → State → Reader State
  | 0, _ => Reader.fail stackOverflow
  | depth + 1, s => do
    let flags ← Reader.u16
    let version ← Reader.u8
    if version ≠ ioVersion then
      Reader.fail (.error s!"Unexpected IO version {version}")
    else State.readVars (Variable.read H db depth (State.read H db depth)) { s with flags }

/-! ### Blobs -/

def hasUoid : UInt16 := 0x0001
def varLengthIo : UInt16 := 0x8000

def readObject (readFlags : UInt16) : Reader (Option Uoid) :=
  Reader.optional (readFlags &&& hasUoid ≠ 0) (do
    let uoid ← Uoid.streamRead
    pure (some uoid)) none

/-- `State::from_blob` on a stream. -/
def State.readBlob (H : Host) (db : DescriptorDb X) (depth : ℕ) : Reader State := do
  let readFlags ← Reader.u16
  if readFlags &&& varLengthIo = 0 then Reader.fail (.error "Unsupported blob format")
  else do
    let descriptorName ← readSafeStr .latin1
    let version ← Reader.u16
    match db.getVersion descriptorName version with
    | some descriptor => do
      let state ← Reader.lift (State.fromDefaults db depth descriptor)
      let object ← readObject readFlags
      State.read H db depth { state with object }
    | none =>
      Reader.fail (.error s!"Could not find descriptor {descriptorName} version {version}")

/-- `State::from_blob`: bytes that are left over are only warned about. -/
def State.fromBlob (H : Host) (db : DescriptorDb X) (depth : ℕ) (blob : Bytes) :
    Except Fault State :=
  ((State.readBlob H db depth).run blob).map Prod.fst

def writeObject : Option Uoid → Out
  | some uoid => uoid.streamWrite
  | none => Out.put []

def State.toBlob (Z : Zlib) (s : State) : Out :=
  Out.u16 (varLengthIo ||| if s.object.isSome then hasUoid else 0) ++
    (writeSafeStr s.descriptor.name .latin1 ++ (Out.u16 s.descriptor.version ++
      (writeObject s.object ++ s.write Z)))

/-! ### Access by name -/

def Var.name {σ : Type} (v : Var σ) : String := v.descriptor.name

def State.getVar (s : State) (varName : String) : Option Variable :=
  (s.simpleVars ++ s.statedescVars).find? fun v => v.name = varName

/-- What `f` makes of `get_var_mut(var_name)`, where there is such a variable. -/
def State.modifyVar (s : State) (varName : String) (f : Variable → Except Fault Variable) :
    Except Fault State :=
  (modifyFirst Var.name varName f s.simpleVars).bind fun
    | some simpleVars => .ok { s with simpleVars }
    | none => (modifyFirst Var.name varName f s.statedescVars).map fun
      | some statedescVars => { s with statedescVars }
      | none => s

inductive SetCall
  | setBool (varName : String) (index : ℕ) (value : Bool)
  | setByte (varName : String) (index : ℕ) (value : UInt8)
  | setInt (varName : String) (index : ℕ) (value : Int32)

def SetCall.varName : SetCall → String
  | .setBool varName _ _ => varName
  | .setByte varName _ _ => varName
  | .setInt varName _ _ => varName

def SetCall.run (v : Variable) : SetCall → Except Fault Variable
  | .setBool _ index value => v.setBool index value
  | .setByte _ index value => v.setByte index value
  | .setInt _ index value => v.setInt index value

/-- The state after a call. One that fails, or finds no variable, leaves it as it was. -/
def State.set (s : State) (call : SetCall) : State :=
  match s.modifyVar call.varName fun v => call.run v with
  | .ok s => s
  | .error _ => s

/-! ### Upgrades -/

/-- `Variable::upgrade_from`, with `upgrade` for the states inside. -/
def Variable.upgradeFrom (upgrade : State → Except Fault (Option State)) (old new : Variable) :
    Except Fault Variable :=
  old.isDefault.bind fun same =>
    if same ∨ new.descriptor.varType ≠ old.descriptor.varType ∨
        new.descriptor.count ≠ old.descriptor.count then .ok new
    else match old.values with
      | .simple t values => .ok { new with values := .simple t values }
      | .stateDesc states =>
        (states.mapM fun s => (upgrade s).map fun upgraded => upgraded.getD s).map fun states =>
          { new with values := .stateDesc states }

/-- `State::upgrade`. A descriptor of the database is the latest one itself exactly if it
equals it, since there is one for every name and version. -/
def State.upgrade (db : DescriptorDb X) : ℕ → State → Except Fault (Option State)
  | 0, _ => .error stackOverflow
  | depth + 1, s => match db.getLatest s.descriptor.name with
    | none => .error
        (.panic s!"Descriptor database is missing descriptors for {s.descriptor.name}")
    | some newDesc =>
      if newDesc = s.descriptor then .ok none
      else (State.fromDefaults db depth newDesc).bind fun newState =>
        ((s.simpleVars ++ s.statedescVars).foldlM (fun (new : State) old =>
          new.modifyVar old.descriptor.name
            (Variable.upgradeFrom (State.upgrade db depth) old)) newState).map some

end Moulars.Sdl
