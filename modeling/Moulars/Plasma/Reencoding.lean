import Moulars.Plasma.CreatableCodec

/-!
Creatables that were read, written again.

The bytes need not be the same, but they are read back as the same object. The only thing that
can go wrong is that something has become too large for the field that holds its size.
-/

namespace Moulars.Plasma

open Lib.Wire

/-- A count or a buffer inside a creatable that its size field cannot hold. -/
inductive Creatable.Oversized (Z : Zlib) : Creatable → Prop
  | animCallbacks {base callbacks anim} (h : 2 ^ 32 ≤ callbacks.length) :
      Oversized Z (.animCmdMsg base callbacks anim)
  | animCallback {base callbacks anim c} (hc : c ∈ callbacks) (h : Oversized Z c) :
      Oversized Z (.animCmdMsg base callbacks anim)
  | callbacks {base callbacks} (h : 2 ^ 32 ≤ callbacks.length) :
      Oversized Z (.messageWithCallbacks base callbacks)
  | callback {base callbacks c} (hc : c ∈ callbacks) (h : Oversized Z c) :
      Oversized Z (.messageWithCallbacks base callbacks)
  | items {base contentFlags cmd flags items} (h : 2 ^ 16 ≤ items.length) :
      Oversized Z (.linkingMgrMsg base contentFlags cmd flags items)
  | item {base contentFlags cmd flags items item} (hitem : item ∈ items)
      (h : Oversized Z item.2) : Oversized Z (.linkingMgrMsg base contentFlags cmd flags items)
  | buffer {base contentFlags cmd flags items buffer}
      (hbuffer : writeItemCount items.length ++ writeItems Z items = .ok buffer)
      (h : 2 ^ 32 ≤ buffer.length) : Oversized Z (.linkingMgrMsg base contentFlags cmd flags items)

/-- An error that is returned, not a panic. -/
def Plain (e : Fault) : Prop := ∃ text, e = .error text

def ErrorIf (P : Prop) (e : Fault) : Prop := Plain e ∧ P

lemma ErrorIf.imp {P Q : Prop} (h : P → Q) {e : Fault} (he : ErrorIf P e) : ErrorIf Q e :=
  ⟨he.1, h he.2⟩

section Writers

variable {Z : Zlib}

lemma raises_writeCount (n : ℕ) (text : String) :
    (Message.writeCount n text).Raises (ErrorIf (2 ^ 32 ≤ n)) := by
  rw [Message.writeCount]
  split
  · exact .put _
  · exact .fail ⟨⟨text, rfl⟩, not_lt.1 ‹_›⟩

lemma raises_writeItemCount (n : ℕ) : (writeItemCount n).Raises (ErrorIf (2 ^ 16 ≤ n)) := by
  rw [writeItemCount]
  split
  · exact .put _
  · exact .fail ⟨⟨_, rfl⟩, not_lt.1 ‹_›⟩

lemma raises_writeListBuffer (flags : UInt8) (buffer : Bytes) :
    (writeListBuffer Z flags buffer).Raises (ErrorIf (2 ^ 32 ≤ buffer.length)) := by
  rw [writeListBuffer]
  split
  · exact .fail ⟨⟨_, rfl⟩, not_lt.1 ‹_›⟩
  · dsimp only
    split
    · exact .put _
    · exact .put _

lemma raises_writeCallbacks {P : Prop} {cs : List Creatable}
    (h : ∀ c ∈ cs, (c.streamWrite Z).Raises (ErrorIf P)) :
    (writeCallbacks Z cs).Raises (ErrorIf P) := by
  rw [Factory.writeCallbacks_eq]
  exact .each fun c hc => (Out.Raises.put _).append (h c hc)

lemma raises_writeItems {P : Prop} {items : List (UInt16 × Creatable)}
    (h : ∀ item ∈ items, (item.2.streamWrite Z).Raises (ErrorIf P)) :
    (writeItems Z items).Raises (ErrorIf P) := by
  rw [Factory.writeItems_eq]
  exact .each fun item hitem =>
    (Out.Raises.put _).append ((Out.Raises.put _).append (h item hitem))

/-- **Writing fails only where something is too large for its field.** -/
lemma raises_streamWrite {c : Creatable} (h : c.Proper) :
    (c.streamWrite Z).Raises (ErrorIf (c.Oversized Z)) := by
  induction h with
  | @animCmdMsg base callbacks anim hbase _ _ hanim ih =>
    refine .bind (fun e he => (raises_writeCount _ _ e he).imp .animCallbacks) fun count _ => ?_
    rw [Message.codes.write _ hbase, AnimCmd.codes.write _ hanim]
    refine (Out.Raises.put _).append ((Out.Raises.put _).append (.append ?_ (.put _)))
    exact raises_writeCallbacks fun c hc => (ih c hc).imp fun _ => .imp (.animCallback hc)
  | @messageWithCallbacks base callbacks hbase _ _ ih =>
    refine .bind (fun e he => (raises_writeCount _ _ e he).imp .callbacks) fun count _ => ?_
    rw [Message.codes.write _ hbase]
    refine (Out.Raises.put _).append ((Out.Raises.put _).append ?_)
    exact raises_writeCallbacks fun c hc => (ih c hc).imp fun _ => .imp (.callback hc)
  | @linkingMgrMsg base contentFlags cmd flags items hbase hbits _ _ _ _ ih =>
    rw [Creatable.streamWrite, Message.codes.write _ hbase, BitVector.codes.write _ hbits]
    refine (Out.Raises.put _).append ((Out.Raises.put _).append (.append ?_ ?_))
    · split
      · exact .put _
      · exact .put _
    · split
      · refine .bind ?_ fun buffer hbuffer =>
          (raises_writeListBuffer flags buffer).imp fun _ => .imp (.buffer hbuffer)
        refine Out.Raises.append ((raises_writeItemCount _).imp fun _ => .imp .items) ?_
        exact raises_writeItems fun item hitem => (ih item hitem).imp fun _ => .imp (.item hitem)
      · exact .put _
  | genericValue h =>
    rw [Creatable.streamWrite, GenericType.codes.write _ h]
    exact .put _

/-! ### No writer panics -/

lemma plain_writeSafeStr (value : String) (format : StringFormat) :
    (writeSafeStr value format).Raises Plain := by
  have hsafe (length : ℕ) (body : Bytes) : (writeSafe length body).Raises Plain := by
    rw [writeSafe]
    split
    · exact .fail ⟨_, rfl⟩
    · exact .put _
  cases format with
  | utf16 => exact hsafe _ _
  | utf8 => exact hsafe _ _
  | latin1 => exact hsafe _ _

lemma Uoid.plain_streamWrite (u : Uoid) : u.streamWrite.Raises Plain := by
  rw [Uoid.streamWrite]
  refine (Out.Raises.put _).append ((Out.Raises.put _).append (.append ?_ ((Out.Raises.put _).append
    ((Out.Raises.put _).append ((plain_writeSafeStr _ _).append ?_)))))
  · split
    · exact .put _
    · exact .put _
  · split
    · exact .put _
    · exact .put _

lemma Key.plain_streamWrite (k : Key) : (Key.streamWrite k).Raises Plain := by
  cases k with
  | none => exact .put _
  | some uoid => exact (Out.Raises.put _).append uoid.plain_streamWrite

lemma Message.plain_streamWrite (m : Message) : m.streamWrite.Raises Plain := by
  refine (Key.plain_streamWrite _).append (.append ?_ (.append ?_ (.put _)))
  · exact (raises_writeCount _ _).imp fun _ => And.left
  · exact .each fun k _ => Key.plain_streamWrite k

lemma BitVector.plain_streamWrite (v : BitVector) : v.streamWrite.Raises Plain := by
  rw [BitVector.streamWrite]
  split
  · exact (Out.Raises.put _).append (.each fun _ _ => .put _)
  · exact .fail ⟨_, rfl⟩

lemma AnimCmd.plain_streamWrite (a : AnimCmd) : a.streamWrite.Raises Plain := by
  refine (BitVector.plain_streamWrite _).append ?_
  iterate 7 refine (Out.Raises.put _).append ?_
  exact (plain_writeSafeStr _ _).append (plain_writeSafeStr _ _)

lemma GenericType.plain_streamWrite (g : GenericType) : g.streamWrite.Raises Plain := by
  cases g with
  | string value => exact (Out.Raises.put _).append (plain_writeSafeStr _ _)
  | any value => exact (Out.Raises.put _).append (plain_writeSafeStr _ _)
  | _ => exact .put _

mutual

lemma Creatable.plain_streamWrite : (c : Creatable) → (c.streamWrite Z).Raises Plain
  | .animCmdMsg base callbacks anim =>
    .bind (fun e he => (raises_writeCount _ _ e he).1) fun _ _ =>
      base.plain_streamWrite.append ((Out.Raises.put _).append
        ((plain_writeCallbacks callbacks).append anim.plain_streamWrite))
  | .messageWithCallbacks base callbacks =>
    .bind (fun e he => (raises_writeCount _ _ e he).1) fun _ _ =>
      base.plain_streamWrite.append ((Out.Raises.put _).append (plain_writeCallbacks callbacks))
  | .linkingMgrMsg base contentFlags cmd flags items => by
    refine base.plain_streamWrite.append (contentFlags.plain_streamWrite.append (.append ?_ ?_))
    · split
      · exact .put _
      · exact .put _
    · split
      · exact .bind (((raises_writeItemCount _).imp fun _ => And.left).append
          (plain_writeItems items)) fun buffer _ =>
          (raises_writeListBuffer flags buffer).imp fun _ => And.left
      · exact .put _
  | .genericValue value => value.plain_streamWrite

lemma plain_writeCallbacks : (cs : List Creatable) → (writeCallbacks Z cs).Raises Plain
  | [] => .put _
  | c :: cs =>
    (Out.Raises.put _).append (c.plain_streamWrite.append (plain_writeCallbacks cs))

lemma plain_writeItems : (items : List (UInt16 × Creatable)) → (writeItems Z items).Raises Plain
  | [] => .put _
  | item :: items => (Out.Raises.put _).append ((Out.Raises.put _).append
      (item.2.plain_streamWrite.append (plain_writeItems items)))

end

end Writers

/-- **A creatable that was read can be written and read again**: on what it is written as,
whatever follows, the factory consumes exactly these bytes and returns the same object, given
room for its nesting; and it can be written unless a count or a buffer is too large for the
field of its size. -/
theorem creatable_reencoded (Z : Zlib) {depth : ℕ} {s rest : Bytes} {o : Option Creatable}
    (h : (Factory.readCreatable Z depth).run s = .ok (o, rest)) :
    (∀ b, Factory.writeCreatable Z o = .ok b →
      ∃ depth₀, ∀ depth ≥ depth₀, ∀ r, (Factory.readCreatable Z depth).run (b ++ r) = .ok (o, r)) ∧
    ∀ e, Factory.writeCreatable Z o = .error e → ∃ c, o = some c ∧ c.Oversized Z := by
  have hproper : ∀ c ∈ o, c.Proper := by
    have hyields : Yields (Factory.readCreatable Z depth) fun o _ => ∀ c ∈ o, c.Proper :=
      Yields.u16.bind fun classId _ _ => (Factory.yields_creatableAs Z depth classId).imp
        fun o _ ho c hc => (ho c hc).1
    obtain ⟨_, -, ho⟩ := hyields s o rest h
    exact ho
  cases o with
  | none =>
    refine ⟨fun b hb => ⟨1, fun depth hdepth => ?_⟩, nofun⟩
    obtain rfl := Out.put_eq_ok.1 hb
    obtain ⟨depth, rfl⟩ : ∃ k, depth = k + 1 := ⟨depth - 1, by omega⟩
    exact (Reads.u16 ClassID.nil.code).bind_nil (Reads.pure none)
  | some c =>
    refine ⟨fun b hb => ?_, fun e he => ⟨c, rfl, ?_⟩⟩
    · obtain ⟨body, hbody, rfl⟩ := Out.put_append_eq_ok.1 hb
      exact (Factory.readsBack_of_proper Z (hproper c rfl)).readCreatable hbody
    · have hraises := (Out.Raises.put (le 2 c.classId.toNat)).append
        (raises_streamWrite (Z := Z) (hproper c rfl))
      exact (hraises e he).2

/-- A message with a callback that has a list with a text in it. -/
def linkCallback : Creatable :=
  .messageWithCallbacks ⟨none, [], 0, 0⟩ [.linkingMgrMsg ⟨none, [], 0, 0⟩ ⟨[3]⟩ 5 0
    [(7, .genericValue (.string "ab"))]]

/-- The message with this text, and the size of the list. -/
def linkCallbackBytes (size : UInt8) (text : Bytes) : Bytes :=
  [0x83, 0x02] ++ List.replicate 17 0 ++ [0x01, 0x00, 0x00, 0x00, 0x4B, 0x03] ++
    List.replicate 17 0 ++ [0x01, 0x00, 0x00, 0x00, 0x03, 0x00, 0x00, 0x00, 0x05, 0x00, size,
      0x00, 0x00, 0x00, 0x01, 0x00, 0x07, 0x00, 0x8C, 0x03, 0x03] ++ text

/-- A text in the old encoding is written in the new one, and read back from it. -/
theorem linkCallback_reencoded :
    (Factory.readCreatable Zlib.stored 3).run
        (linkCallbackBytes 13 [0x02, 0x00, 0x00, 0x00, 0x61, 0x62]) =
      .ok (some linkCallback, []) ∧
    ∃ depth₀, ∀ depth ≥ depth₀, ∀ r,
      (Factory.readCreatable Zlib.stored depth).run
          (linkCallbackBytes 11 [0x02, 0xF0, 0x9E, 0x9D] ++ r) = .ok (some linkCallback, r) := by
  have h : (Factory.readCreatable Zlib.stored 3).run
      (linkCallbackBytes 13 [0x02, 0x00, 0x00, 0x00, 0x61, 0x62]) =
        .ok (some linkCallback, []) := by rfl
  exact ⟨h, (creatable_reencoded Zlib.stored h).1 _ (by rfl)⟩

end Moulars.Plasma
