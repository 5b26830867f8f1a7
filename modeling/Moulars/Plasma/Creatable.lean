import Moulars.Plasma.Values

/-!
Creatables: the polymorphic objects of Plasma streams, and the factory that reads and writes
them.

A creatable may hold further creatables, also inside a compressed buffer, and the reader
recurses into them. Nothing bounds that recursion but the stack, so the reader here takes the
nesting depth there is room for.
-/

namespace Moulars.Plasma

open Lib.Wire

/-- The zlib compression the server uses, with what is known of it. -/
structure Zlib where
  compress : Bytes → Bytes
  decompress : Bytes → Except Fault Bytes
  inverse : ∀ b, decompress (compress b) = .ok b

/-- A compression that does nothing, for evaluation. -/
def Zlib.stored : Zlib := ⟨fun b => b, .ok, fun _ => rfl⟩

/-! ### Bit vectors and messages -/

structure BitVector where
  bits : List UInt32
  deriving DecidableEq

namespace BitVector

def get (v : BitVector) (bit : ℕ) : Bool := (v.bits.getD (bit / 32) 0).toNat.testBit (bit % 32)

def streamRead : Reader BitVector := do
  let count ← Reader.u32
  let bits ← Reader.times Reader.u32 count.toNat
  pure ⟨bits⟩

def streamWrite (v : BitVector) : Out :=
  if v.bits.length < 2 ^ 32 then Out.put (le 4 v.bits.length) ++ Out.each Out.u32 v.bits
  else Out.fail (.error "out of range integral type conversion attempted")

end BitVector

abbrev Key := Option Uoid

namespace Key

def streamRead : Reader Key := do
  let present ← Reader.u8
  if present ≠ 0 then do
    let uoid ← Uoid.streamRead
    pure (some uoid)
  else pure none

def streamWrite : Key → Out
  | some uoid => Out.u8 1 ++ uoid.streamWrite
  | none => Out.u8 0

end Key

structure Message where
  sender : Key
  receivers : List Key
  timestamp : F64
  bcastFlags : UInt32
  deriving DecidableEq

namespace Message

def streamRead : Reader Message := do
  let sender ← Key.streamRead
  let numReceivers ← Reader.u32
  let receivers ← Reader.times Key.streamRead numReceivers.toNat
  let timestamp ← Reader.u64
  let bcastFlags ← Reader.u32
  pure ⟨sender, receivers, timestamp, bcastFlags⟩

/-- A count as a `u32`, or the error given. -/
def writeCount (n : ℕ) (text : String) : Out :=
  if n < 2 ^ 32 then Out.put (le 4 n) else Out.fail (.error text)

def streamWrite (m : Message) : Out :=
  Key.streamWrite m.sender ++ (writeCount m.receivers.length "Too many receivers for stream" ++
    (Out.each Key.streamWrite m.receivers ++ (Out.u64 m.timestamp ++ Out.u32 m.bcastFlags)))

end Message

/-! ### Creatables -/

inductive GenericType
  | int (value : Int32)
  | float (value : F32)
  | bool (value : Bool)
  | string (value : String)
  | char (value : UInt8)
  | any (value : String)
  | uint (value : UInt32)
  | double (value : F64)
  | none
  deriving DecidableEq

/-- What an `AnimCmdMsg` has beyond a message with callbacks. -/
structure AnimCmd where
  cmd : BitVector
  begin : F32
  «end» : F32
  loopEnd : F32
  loopBegin : F32
  speed : F32
  speedChangeRate : F32
  time : F32
  animName : String
  loopName : String
  deriving DecidableEq

inductive Creatable
  | animCmdMsg (base : Message) (callbacks : List Creatable) (anim : AnimCmd)
  | messageWithCallbacks (base : Message) (callbacks : List Creatable)
  | linkingMgrMsg (base : Message) (contentFlags : BitVector) (cmd : UInt8) (flags : UInt8)
      (items : List (UInt16 × Creatable))
  | genericValue (value : GenericType)

inductive ClassID
  | soundBuffer | relevanceRegion | message | animCmdMsg | messageWithCallbacks | linkingMgrMsg
  | creatableGenericValue | nil
  deriving DecidableEq

namespace ClassID

def code : ClassID → UInt16
  | .soundBuffer => 0x0029
  | .relevanceRegion => 0x011E
  | .message => 0x0202
  | .animCmdMsg => 0x0206
  | .messageWithCallbacks => 0x0283
  | .linkingMgrMsg => 0x034B
  | .creatableGenericValue => 0x038C
  | .nil => 0x8000

def all : List ClassID :=
  [.soundBuffer, .relevanceRegion, .message, .animCmdMsg, .messageWithCallbacks, .linkingMgrMsg,
    .creatableGenericValue, .nil]

def fromU16 (n : UInt16) : Option ClassID := all.find? fun c => c.code == n

lemma code_of_fromU16 {n : UInt16} {c : ClassID} (h : fromU16 n = some c) : n = c.code := by
  have hc := List.find?_some h
  exact (beq_iff_eq.1 hc).symm

end ClassID

namespace Creatable

def classID : Creatable → ClassID
  | .animCmdMsg .. => .animCmdMsg
  | .messageWithCallbacks .. => .messageWithCallbacks
  | .linkingMgrMsg .. => .linkingMgrMsg
  | .genericValue _ => .creatableGenericValue

def classId (c : Creatable) : UInt16 := c.classID.code

/-- `have_interface(ClassID::Message)`. -/
def isMessage : Creatable → Bool
  | .genericValue _ => false
  | _ => true

end Creatable

def hex4 (n : ℕ) : String :=
  String.ofList ([n / 4096, n / 256, n / 16, n].map fun d =>
    "0123456789abcdef".toList.getD (d % 16) '0')

/-- Read the whole buffer of a creatable list: a byte count, and the bytes themselves or their
compression. Returns the flags without the compression flag. -/
def readListBuffer (Z : Zlib) : Reader (UInt8 × Bytes) := do
  let flags ← Reader.u8
  let bufferSize ← Reader.u32
  if flags &&& 2 ≠ 0 then do
    let compressedSize ← Reader.u32
    let compressed ← Reader.exact compressedSize.toNat
    match Z.decompress compressed with
    | .error e => Reader.fail e
    | .ok buffer =>
      if buffer.length ≠ bufferSize.toNat then
        Reader.fail (.error "Buffer decompressed size mismatch")
      else pure (flags &&& ~~~ 2, buffer)
  else ⟨fun s =>
    if bufferSize.toNat ≤ s.length then
      .ok ((flags, s.take bufferSize.toNat), s.drop bufferSize.toNat)
    else .error (.error "Buffer read size mismatch")⟩

/-- Read `n` creatables with `read`, each of which must be a message. -/
def readCallback (read : Reader (Option Creatable)) : Reader Creatable := do
  let item ← read
  match item with
  | some msg =>
    if msg.isMessage then pure msg
    else Reader.fail (.error
      s!"Unexpected creatable type 0x{hex4 msg.classId.toNat} (Expected Message interface)")
  | none => Reader.fail (.error "Unexpected null message in callbacks")

def readItem (read : Reader (Option Creatable)) : Reader (UInt16 × Creatable) := do
  let itemId ← Reader.u16
  let item ← read
  match item with
  | some c => pure (itemId, c)
  | none => Reader.fail (.error "Unexpected null creatable in list")

def readWithCallbacks (read : Reader (Option Creatable)) : Reader (Message × List Creatable) := do
  let base ← Message.streamRead
  let numCallbacks ← Reader.u32
  let callbacks ← Reader.times (readCallback read) numCallbacks.toNat
  pure (base, callbacks)

def AnimCmd.streamRead : Reader AnimCmd := do
  let cmd ← BitVector.streamRead
  let begin ← Reader.u32
  let «end» ← Reader.u32
  let loopEnd ← Reader.u32
  let loopBegin ← Reader.u32
  let speed ← Reader.u32
  let speedChangeRate ← Reader.u32
  let time ← Reader.u32
  let animName ← readSafeStr .latin1
  let loopName ← readSafeStr .latin1
  pure ⟨cmd, begin, «end», loopEnd, loopBegin, speed, speedChangeRate, time, animName, loopName⟩

def readList (Z : Zlib) (read : Reader (Option Creatable)) :
    Reader (UInt8 × List (UInt16 × Creatable)) := do
  let list ← readListBuffer Z
  within list.2 do
    let itemCount ← Reader.u16
    let items ← Reader.times (readItem read) itemCount.toNat
    pure (list.1, items)

/-- `CreatableList::default()`: compression wanted, no items. -/
def defaultList : UInt8 × List (UInt16 × Creatable) := (1, [])

def GenericType.streamRead : Reader GenericType := do
  let typeId ← Reader.u8
  match typeId.toNat with
  | 0 => do let value ← Reader.i32; pure (.int value)
  | 1 => do let value ← Reader.u32; pure (.float value)
  | 2 => do let value ← Reader.u8; pure (.bool (value ≠ 0))
  | 3 => do let value ← readSafeStr .latin1; pure (.string value)
  | 4 => do let value ← Reader.u8; pure (.char value)
  | 5 => do let value ← readSafeStr .latin1; pure (.any value)
  | 6 => do let value ← Reader.u32; pure (.uint value)
  | 7 => do let value ← Reader.u64; pure (.double value)
  | 255 => pure .none
  | n => Reader.fail (.error s!"Invalid type ID {n}")

namespace Factory

/-- Read a creatable of the class given with `read` for the creatables inside it. -/
def readBody (Z : Zlib) (read : Reader (Option Creatable)) (classId : UInt16) :
    Reader (Option Creatable) :=
  match ClassID.fromU16 classId with
  | some .soundBuffer =>
    Reader.fail (.error "SoundBuffer only supported for Manifest generation")
  | some .relevanceRegion =>
    Reader.fail (.error "RelevanceRegion only supported for Manifest generation")
  | some .message => Reader.fail (.error "Message is an abstract base class")
  | some .animCmdMsg => do
    let m ← readWithCallbacks read
    let anim ← AnimCmd.streamRead
    pure (some (.animCmdMsg m.1 m.2 anim))
  | some .messageWithCallbacks => do
    let m ← readWithCallbacks read
    pure (some (.messageWithCallbacks m.1 m.2))
  | some .linkingMgrMsg => do
    let base ← Message.streamRead
    let contentFlags ← BitVector.streamRead
    let cmd ← Reader.optional (contentFlags.get 0 = true) Reader.u8 0
    let args ← Reader.optional (contentFlags.get 1 = true) (readList Z read) defaultList
    pure (some (.linkingMgrMsg base contentFlags cmd args.1 args.2))
  | some .creatableGenericValue => do
    let value ← GenericType.streamRead
    pure (some (.genericValue value))
  | some .nil => pure none
  | none => Reader.fail (.error s!"Unknown creatable type 0x{hex4 classId.toNat}")

/-- Creatables nested at most `depth` deep. -/
def readCreatableAs (Z : Zlib) : ℕ → UInt16 → Reader (Option Creatable)
  | 0, _ => Reader.fail (.panic "stack overflow")
  | depth + 1, classId =>
    readBody Z (do let classId ← Reader.u16; readCreatableAs Z depth classId) classId

def readCreatable (Z : Zlib) (depth : ℕ) : Reader (Option Creatable) := do
  let classId ← Reader.u16
  readCreatableAs Z depth classId

end Factory

/-! ### Writing -/

def AnimCmd.streamWrite (a : AnimCmd) : Out :=
  a.cmd.streamWrite ++ (Out.u32 a.begin ++ (Out.u32 a.end ++ (Out.u32 a.loopEnd ++
    (Out.u32 a.loopBegin ++ (Out.u32 a.speed ++ (Out.u32 a.speedChangeRate ++ (Out.u32 a.time ++
      (writeSafeStr a.animName .latin1 ++ writeSafeStr a.loopName .latin1))))))))

def GenericType.streamWrite : GenericType → Out
  | .int value => Out.u8 0 ++ Out.i32 value
  | .float value => Out.u8 1 ++ Out.u32 value
  | .bool value => Out.u8 2 ++ Out.u8 (if value then 1 else 0)
  | .string value => Out.u8 3 ++ writeSafeStr value .latin1
  | .char value => Out.u8 4 ++ Out.u8 value
  | .any value => Out.u8 5 ++ writeSafeStr value .latin1
  | .uint value => Out.u8 6 ++ Out.u32 value
  | .double value => Out.u8 7 ++ Out.u64 value
  | .none => Out.u8 255

/-- The buffer of a creatable list, compressed where that is wanted and makes it smaller. -/
def writeListBuffer (Z : Zlib) (flags : UInt8) (buffer : Bytes) : Out :=
  if ¬ buffer.length < 2 ^ 32 then Out.fail (.error "Buffer too large for stream")
  else
    let flags := flags &&& ~~~ 2
    let compressed := Z.compress buffer
    if flags &&& 1 ≠ 0 ∧ buffer.length ≥ 256 ∧ compressed.length < buffer.length then
      Out.u8 (flags ||| 2) ++ (Out.put (le 4 buffer.length) ++
        (Out.put (le 4 compressed.length) ++ Out.put compressed))
    else Out.u8 flags ++ (Out.put (le 4 buffer.length) ++ Out.put buffer)

def writeItemCount (n : ℕ) : Out :=
  if n < 2 ^ 16 then Out.put (le 2 n) else Out.fail (.error "Too many items for stream")

mutual

def Creatable.streamWrite (Z : Zlib) : Creatable → Out
  | .animCmdMsg base callbacks anim =>
    (Message.writeCount callbacks.length "Too many messages for stream").bind fun count =>
      base.streamWrite ++ (Out.put count ++ (writeCallbacks Z callbacks ++ anim.streamWrite))
  | .messageWithCallbacks base callbacks =>
    (Message.writeCount callbacks.length "Too many messages for stream").bind fun count =>
      base.streamWrite ++ (Out.put count ++ writeCallbacks Z callbacks)
  | .linkingMgrMsg base contentFlags cmd flags items =>
    base.streamWrite ++ (contentFlags.streamWrite ++
      ((if contentFlags.get 0 then Out.u8 cmd else Out.put []) ++
        (if contentFlags.get 1 then
          (writeItemCount items.length ++ writeItems Z items).bind (writeListBuffer Z flags)
        else Out.put [])))
  | .genericValue value => value.streamWrite

/-- The creatables of a list, each with its class id. -/
def writeCallbacks (Z : Zlib) : List Creatable → Out
  | [] => Out.put []
  | c :: cs => Out.u16 c.classId ++ (c.streamWrite Z ++ writeCallbacks Z cs)

def writeItems (Z : Zlib) : List (UInt16 × Creatable) → Out
  | [] => Out.put []
  | item :: items => Out.u16 item.1 ++ (Out.u16 item.2.classId ++ (item.2.streamWrite Z ++
      writeItems Z items))

end

def Factory.writeCreatable (Z : Zlib) : Option Creatable → Out
  | some creatable => Out.u16 creatable.classId ++ creatable.streamWrite Z
  | none => Out.u16 ClassID.nil.code

end Moulars.Plasma
