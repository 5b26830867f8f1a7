import Moulars.Plasma.Creatable
import Moulars.Sdl.Descriptor

/-!
State variables: the values a variable of each type holds, its default, and how its values
are read and written.

What a variable of a type that refers to another descriptor holds is states again; here it is
any type `σ`, and all that concerns those variables is left to the module on states.
-/

namespace Moulars.Sdl

open Lib Lib.Wire Lib.Text Plasma

/-! ### Values -/

/-- One value of a simple type. The time of day is not stored; only how often it is there. -/
@[reducible] def SimpleType.Elem : SimpleType → Type
  | .ageTimeOfDay => Unit
  | .bool => Bool
  | .byte => UInt8
  | .creatable => Option Creatable
  | .double => F64
  | .float => F32
  | .int => Int32
  | .key => Uoid
  | .point3 => Vector3
  | .quat => Quaternion
  | .rgb => ColorRGBA
  | .rgb8 => Color32
  | .rgba => ColorRGBA
  | .rgba8 => Color32
  | .short => Int16
  | .string32 => String
  | .time => UnifiedTime
  | .vector3 => Vector3

/-- The size of a value in memory, on a 64-bit machine. -/
def SimpleType.elemSize : SimpleType → ℕ
  | .ageTimeOfDay => 0
  | .bool => 1
  | .byte => 1
  | .creatable => 16
  | .double => 8
  | .float => 4
  | .int => 4
  | .key => 48
  | .point3 => 12
  | .quat => 16
  | .rgb => 16
  | .rgb8 => 4
  | .rgba => 16
  | .rgba8 => 4
  | .short => 2
  | .string32 => 24
  | .time => 8
  | .vector3 => 12

inductive VarValues (σ : Type)
  | simple (t : SimpleType) (values : List t.Elem)
  | stateDesc (states : List σ)

/-- A variable, the states inside it being of type `σ`. -/
structure Var (σ : Type) where
  descriptor : VarDescriptor
  values : VarValues σ
  timestamp : UnifiedTime
  notificationHint : String
  dirty : Bool

def VarType.debug : VarType → String
  | .simple .ageTimeOfDay => "AgeTimeOfDay"
  | .simple .bool => "Bool"
  | .simple .byte => "Byte"
  | .simple .creatable => "Creatable"
  | .simple .double => "Double"
  | .simple .float => "Float"
  | .simple .int => "Int"
  | .simple .key => "Key"
  | .simple .point3 => "Point3"
  | .simple .quat => "Quat"
  | .simple .rgb => "Rgb"
  | .simple .rgb8 => "Rgb8"
  | .simple .rgba => "Rgba"
  | .simple .rgba8 => "Rgba8"
  | .simple .short => "Short"
  | .simple .string32 => "String32"
  | .simple .time => "Time"
  | .simple .vector3 => "Vector3"
  | .stateDesc name => s!"StateDesc(\"{name}\")"

/-! ### Defaults -/

def unreachable (text : String) : Fault :=
  .panic ("internal error: entered unreachable code" ++ text)

/-- `get_default!`: the default of the descriptor where it has one. -/
def getDefault {α : Type} (default : Option VarDefault) (pick : VarDefault → Option α)
    (otherwise : α) : Except Fault α :=
  match default with
  | none => .ok otherwise
  | some d => match pick d with
    | some value => .ok value
    | none => .error (unreachable ": Wrong VarDefault type")

def SimpleType.defaultElem : (t : SimpleType) → Option VarDefault → Except Fault t.Elem
  | .ageTimeOfDay, _ => .ok ()
  | .creatable, _ => .ok none
  | .key, _ => .ok Uoid.invalid
  | .bool, d => getDefault d (fun | .bool v => some v | _ => none) false
  | .byte, d => getDefault d (fun | .byte v => some v | _ => none) 0
  | .double, d => getDefault d (fun | .double v => some v | _ => none) 0
  | .float, d => getDefault d (fun | .float v => some v | _ => none) 0
  | .int, d => getDefault d (fun | .int v => some v | _ => none) 0
  | .point3, d => getDefault d (fun | .vector3 v => some v | _ => none) Vector3.default
  | .quat, d => getDefault d (fun | .quat v => some v | _ => none) Quaternion.default
  | .rgb, d => getDefault d (fun | .rgba v => some v | _ => none) ColorRGBA.default
  | .rgb8, d => getDefault d (fun | .rgba8 v => some v | _ => none) Color32.default
  | .rgba, d => getDefault d (fun | .rgba v => some v | _ => none) ColorRGBA.default
  | .rgba8, d => getDefault d (fun | .rgba8 v => some v | _ => none) Color32.default
  | .short, d => getDefault d (fun | .short v => some v | _ => none) 0
  | .string32, d => getDefault d (fun | .string32 v => some v | _ => none) ""
  | .time, d => getDefault d (fun | .time v => some v | _ => none) UnifiedTime.default
  | .vector3, d => getDefault d (fun | .vector3 v => some v | _ => none) Vector3.default

lemma SimpleType.exists_defaultElem (t : SimpleType) {default : Option VarDefault}
    (h : ∀ d ∈ default, (VarType.simple t).takes d = true) :
    ∃ e, t.defaultElem default = .ok e := by
  cases default with
  | none => cases t <;> exact ⟨_, rfl⟩
  | some d =>
    have hd := h d rfl
    cases t <;> cases d <;> first | exact ⟨_, rfl⟩ | cases hd

/-- The values compared with `==`: numbers as numbers. -/
def SimpleType.sameElem : (t : SimpleType) → t.Elem → t.Elem → Bool
  | .ageTimeOfDay, _, _ => true
  | .bool, a, b => a == b
  | .byte, a, b => a == b
  | .creatable, a, _ => a.isNone
  | .double, a, b => F64.eq a b
  | .float, a, b => F32.eq a b
  | .int, a, b => a == b
  | .key, a, b => a == b
  | .point3, a, b => Vector3.eq a b
  | .quat, a, b => Quaternion.eq a b
  | .rgb, a, b => ColorRGBA.eq a b
  | .rgb8, a, b => a == b
  | .rgba, a, b => ColorRGBA.eq a b
  | .rgba8, a, b => a == b
  | .short, a, b => a == b
  | .string32, a, b => a == b
  | .time, a, b => a == b
  | .vector3, a, b => Vector3.eq a b

/-- `check_default!`: values of type `t`, or nothing the code is prepared for. -/
def checkDefault {σ : Type} (t : SimpleType) (default : t.Elem) (text : String) :
    VarValues σ → Except Fault Bool
  | .simple t' values =>
    if h : t' = t then .ok ((h ▸ values : List t.Elem).all fun v => t.sameElem v default)
    else .error (unreachable text)
  | .stateDesc _ => .error (unreachable text)

/-- `Variable::is_default` past the check for a count, for the simple types. Points are
checked as if they were vectors, which they are not. -/
def isDefaultSimple {σ : Type} (default : Option VarDefault) (values : VarValues σ) :
    SimpleType → Except Fault Bool
  | .ageTimeOfDay => .ok true
  | .creatable => checkDefault .creatable none "" values
  | .point3 => (SimpleType.point3.defaultElem default).bind fun d =>
    checkDefault .vector3 d ": Wrong VarValues type" values
  | t => (t.defaultElem default).bind fun d => checkDefault t d ": Wrong VarValues type" values

/-! ### Accessors -/

section Accessors

variable {σ : Type}

/-- The setter of the type `t`. A variable that is set is dirty. -/
def Var.setElem (t : SimpleType) (typeName : String) (v : Var σ) (index : ℕ) (value : t.Elem) :
    Except Fault (Var σ) :=
  let wrong : Fault :=
    .error s!"Cannot assign {typeName} to {v.descriptor.varType.debug} variable"
  match v.values with
  | .simple t' values =>
    if h : t' = t then
      if index < values.length then
        .ok { v with
          values := .simple t ((h ▸ values : List t.Elem).set index value), dirty := true }
      else .error (.error s!"Variable index {index} out of range")
    else .error wrong
  | .stateDesc _ => .error wrong

def Var.setBool (v : Var σ) (index : ℕ) (value : Bool) : Except Fault (Var σ) :=
  v.setElem .bool "bool" index value

def Var.setByte (v : Var σ) (index : ℕ) (value : UInt8) : Except Fault (Var σ) :=
  v.setElem .byte "byte" index value

def Var.setInt (v : Var σ) (index : ℕ) (value : Int32) : Except Fault (Var σ) :=
  v.setElem .int "int" index value

end Accessors

/-! ### Elements on the wire -/

/-- What reading depends on from outside: the decompression and the time of day. -/
structure Host where
  zlib : Zlib
  now : Except Fault UnifiedTime

/-- The text of a fixed buffer up to its first zero. -/
def string32Text (buf : Bytes) : String := String.ofList (fromUtf8Lossy (buf.takeWhile (· ≠ 0)))

def readCreatable (Z : Zlib) (depth : ℕ) : Reader (Option Creatable) := do
  let classId ← Reader.u16
  if classId = ClassID.nil.code then pure none
  else do
    let creatableSize ← Reader.u32
    let creatableBuf ← Reader.exact creatableSize.toNat
    within creatableBuf (Factory.readCreatableAs Z depth classId)

def writeCreatable (Z : Zlib) : Option Creatable → Out
  | some creatable => Out.u16 creatable.classId ++ (creatable.streamWrite Z).bind fun buf =>
    if buf.length < 2 ^ 32 then Out.put (le 4 buf.length) ++ Out.put buf
    else Out.fail (.error "Creatable too large for stream")
  | none => Out.u16 ClassID.nil.code

def readElem (Z : Zlib) (depth : ℕ) : (t : SimpleType) → Reader t.Elem
  | .ageTimeOfDay => pure ()
  | .bool => do
    let value ← Reader.u8
    pure (value != 0)
  | .byte => Reader.u8
  | .creatable => readCreatable Z depth
  | .double => Reader.u64
  | .float => Reader.u32
  | .int => Reader.i32
  | .key => Uoid.streamRead
  | .point3 => Vector3.streamRead
  | .quat => Quaternion.streamRead
  | .rgb => do
    let r ← Reader.u32
    let g ← Reader.u32
    let b ← Reader.u32
    pure ⟨r, g, b, F32.one⟩
  | .rgb8 => do
    let b ← Reader.u8
    let g ← Reader.u8
    let r ← Reader.u8
    pure ⟨b, g, r, 255⟩
  | .rgba => do
    let r ← Reader.u32
    let g ← Reader.u32
    let b ← Reader.u32
    let a ← Reader.u32
    pure ⟨r, g, b, a⟩
  | .rgba8 => do
    let b ← Reader.u8
    let g ← Reader.u8
    let r ← Reader.u8
    let a ← Reader.u8
    pure ⟨b, g, r, a⟩
  | .short => Reader.i16
  | .string32 => do
    let buf ← Reader.exact 32
    pure (string32Text buf)
  | .time => UnifiedTime.streamRead
  | .vector3 => Vector3.streamRead

/-- Thirty-one bytes of the text, filled up with zeros, and one more zero. -/
def string32Bytes (s : String) : Bytes :=
  let bytes := encodeUtf8 s.toList
  (bytes ++ List.replicate (31 - bytes.length) 0).take 31 ++ [0]

def writeElem (Z : Zlib) : (t : SimpleType) → t.Elem → Out
  | .ageTimeOfDay, _ => Out.put []
  | .bool, v => Out.u8 (if v then 1 else 0)
  | .byte, v => Out.u8 v
  | .creatable, v => writeCreatable Z v
  | .double, v => Out.u64 v
  | .float, v => Out.u32 v
  | .int, v => Out.i32 v
  | .key, v => v.streamWrite
  | .point3, v => v.streamWrite
  | .quat, v => v.streamWrite
  | .rgb, v => Out.u32 v.r ++ (Out.u32 v.g ++ Out.u32 v.b)
  | .rgb8, v => Out.u8 v.b ++ (Out.u8 v.g ++ Out.u8 v.r)
  | .rgba, v => Out.u32 v.r ++ (Out.u32 v.g ++ (Out.u32 v.b ++ Out.u32 v.a))
  | .rgba8, v => Out.u8 v.b ++ (Out.u8 v.g ++ (Out.u8 v.r ++ Out.u8 v.a))
  | .short, v => Out.i16 v
  | .string32, v => Out.put (string32Bytes v)
  | .time, v => v.streamWrite
  | .vector3, v => v.streamWrite

/-! ### Variables on the wire -/

def hasNotificationInfo : UInt8 := 0x02
def hasTimestamp : UInt8 := 0x04
def sameAsDefault : UInt8 := 0x08
def hasDirtyFlag : UInt8 := 0x10
def wantTimestamp : UInt8 := 0x20

def tooManyElements (count : ℕ) : Fault :=
  .error s!"Too many elements in SDL variable ({count})"

def checkVarCount (varCount : ℕ) : Reader ℕ :=
  if varCount ≥ 10000 then Reader.fail (tooManyElements varCount) else pure varCount

def readVarCount (descriptor : VarDescriptor) : Reader ℕ :=
  match descriptor.count with
  | some count => checkVarCount count
  | none => do
    let count ← Reader.u32
    checkVarCount count.toNat

def writeVarCount (descriptor : VarDescriptor) (count : ℕ) : Out :=
  if count > 10000 then Out.fail (tooManyElements count)
  else if descriptor.count = none then Out.put (le 4 count)
  else Out.put []

section Wire

variable {σ : Type}

def readNotificationHint : Reader String := do
  let readFlags ← Reader.u8
  if readFlags &&& hasNotificationInfo ≠ 0 then do
    let _ ← Reader.u8
    readSafeStr .latin1
  else pure ""

def writeNotificationHint (hint : String) : Out :=
  if hint = "" then Out.u8 0
  else Out.u8 hasNotificationInfo ++ (Out.u8 0 ++ writeSafeStr hint .latin1)

def readTimestamp (H : Host) (readFlags : UInt8) (timestamp : UnifiedTime) :
    Reader UnifiedTime :=
  if readFlags &&& hasTimestamp ≠ 0 then UnifiedTime.streamRead
  else if readFlags &&& hasDirtyFlag ≠ 0 ∧ readFlags &&& wantTimestamp ≠ 0 then
    match H.now with
    | .ok time => pure time
    | .error e => Reader.fail e
  else pure timestamp

def readValues (H : Host) (depth : ℕ) (descriptor : VarDescriptor) (t : SimpleType) :
    Reader (VarValues σ) := do
  let totalCount ← readVarCount descriptor
  let values ← Reader.times (readElem H.zlib depth t) totalCount
  pure (.simple t values)

/-- `Variable::read_simple`, for a variable of type `t`. -/
def Var.readSimple (H : Host) (depth : ℕ) (v : Var σ) (t : SimpleType) : Reader (Var σ) := do
  let readFlags ← Reader.u8
  let timestamp ← readTimestamp H readFlags v.timestamp
  let values ← Reader.optional (readFlags &&& sameAsDefault = 0)
    (readValues H depth v.descriptor t) v.values
  pure { v with timestamp, values }

/-- The flags before the value, `same` telling whether it is the default. -/
def Var.writeFlags (v : Var σ) (same : Bool) : UInt8 :=
  (if v.timestamp = UnifiedTime.default then 0 else hasTimestamp) |||
    ((if same then sameAsDefault else 0) ||| (if v.dirty then hasDirtyFlag else 0))

/-- `Variable::write_simple`, given what `is_default` says. -/
def Var.writeSimple (Z : Zlib) (v : Var σ) (isDefault : Except Fault Bool) : Out :=
  isDefault.bind fun same => Out.u8 (v.writeFlags same) ++
    (if v.writeFlags same &&& sameAsDefault = 0 then match v.values with
      | .simple t values =>
        writeVarCount v.descriptor values.length ++ Out.each (writeElem Z t) values
      | .stateDesc _ => Out.fail (unreachable "")
    else Out.put [])

end Wire

end Moulars.Sdl
