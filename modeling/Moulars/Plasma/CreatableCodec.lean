import Moulars.Plasma.Creatable

/-!
Creatables read back as they were written.

`Creatable.Proper` says what the factory's reader returns; what is proper and can be written
at all is read back, whatever follows it, once there is room for its nesting.
-/

namespace Moulars.Plasma

open Lib.Wire

/-! ### Keys, bit vectors and messages -/

def Key.Named (k : Key) : Prop := ∀ u ∈ k, u.Named

def Key.bytes : Key → Bytes
  | some uoid => le 1 1 ++ uoid.bytes
  | none => le 1 0

lemma Key.codes : Codes Key.streamRead Key.streamWrite Key.Named Key.bytes where
  write k h := by
    cases k with
    | none => rfl
    | some u =>
      rw [Key.streamWrite, Uoid.codes.write u (h u rfl)]
      rfl
  reads k h := by
    cases k with
    | none => exact (Reads.u8 0).bind (Reads.pure _)
    | some u => exact (Reads.u8 1).bind (Uoid.codes.reads u (h u rfl)).bind_pure
  valid := by
    refine Yields.u8.bind fun present _ _ => ?_
    split
    · refine Uoid.codes.valid.bind fun u _ hu => Yields.pure _ ?_
      rintro _ ⟨⟩
      exact hu
    · exact Yields.pure _ (by rintro _ ⟨⟩)

def BitVector.bytes (v : BitVector) : Bytes :=
  le 4 v.bits.length ++ v.bits.flatMap fun b => le 4 b.toNat

lemma BitVector.codes : Codes BitVector.streamRead BitVector.streamWrite
    (fun v => v.bits.length < 2 ^ 32) BitVector.bytes where
  write v h := by
    have hu : Codes Reader.u32 Out.u32 (fun _ => True) fun b => le 4 b.toNat :=
      Codes.of_yields Reads.u32 Yields.u32
    rw [BitVector.streamWrite, if_pos h, hu.write_each v.bits fun _ _ => trivial,
      Out.put_append_put, BitVector.bytes]
  reads v h := by
    refine Reads.bind_count32 h fun count hc => ?_
    rw [hc]
    exact (Reads.times v.bits fun b _ => Reads.u32 b).bind_pure
  valid := by
    refine Yields.u32.bind fun count _ _ => ?_
    refine (Yields.times Yields.u32 count.toNat).bind ?_
    rintro bits c ⟨hl, -⟩
    exact Yields.pure _ (by rw [hl]; exact count.toNat_lt)

/-- The messages the reader returns. -/
structure Message.Proper (m : Message) : Prop where
  sender : m.sender.Named
  receivers : ∀ k ∈ m.receivers, Key.Named k
  count : m.receivers.length < 2 ^ 32

def Message.bytes (m : Message) : Bytes :=
  m.sender.bytes ++ (le 4 m.receivers.length ++ (m.receivers.flatMap Key.bytes ++
    (le 8 m.timestamp.toNat ++ le 4 m.bcastFlags.toNat)))

lemma Message.codes : Codes Message.streamRead Message.streamWrite Message.Proper
    Message.bytes where
  write m h := by
    simp only [Message.streamWrite, Message.writeCount, if_pos h.count, Key.codes.write _ h.sender,
      Key.codes.write_each _ h.receivers, Out.u64, Out.u32, Out.put_append_put, Message.bytes]
  reads m h := by
    refine (Key.codes.reads _ h.sender).bind ?_
    refine Reads.bind_count32 h.count fun count hc => ?_
    rw [hc]
    refine (Key.codes.reads_times _ h.receivers).bind ?_
    exact (Reads.u64 m.timestamp).bind (Reads.u32 m.bcastFlags).bind_pure
  valid := by
    refine Key.codes.valid.bind fun sender _ hs => ?_
    refine Yields.u32.bind fun count _ _ => ?_
    refine (Key.codes.valid_times count.toNat).bind ?_
    rintro receivers _ ⟨hl, hr⟩
    refine Yields.u64.bind fun timestamp _ _ => Yields.u32.bind fun bcastFlags _ _ => ?_
    exact Yields.pure _ ⟨hs, hr, by rw [hl]; exact count.toNat_lt⟩

/-! ### Animation commands and generic values -/

structure AnimCmd.Proper (a : AnimCmd) : Prop where
  cmd : a.cmd.bits.length < 2 ^ 32
  animName : Latin1Safe a.animName
  loopName : Latin1Safe a.loopName

def AnimCmd.bytes (a : AnimCmd) : Bytes :=
  a.cmd.bytes ++ (le 4 a.begin.toNat ++ (le 4 a.end.toNat ++ (le 4 a.loopEnd.toNat ++
    (le 4 a.loopBegin.toNat ++ (le 4 a.speed.toNat ++ (le 4 a.speedChangeRate.toNat ++
      (le 4 a.time.toNat ++ (safeBytes a.animName ++ safeBytes a.loopName))))))))

lemma AnimCmd.codes : Codes AnimCmd.streamRead AnimCmd.streamWrite AnimCmd.Proper
    AnimCmd.bytes where
  write a h := by
    simp only [AnimCmd.streamWrite, BitVector.codes.write _ h.cmd, Out.u32,
      writeSafeStr_latin1 h.animName.length, writeSafeStr_latin1 h.loopName.length,
      Out.put_append_put, AnimCmd.bytes]
  reads a h :=
    (BitVector.codes.reads _ h.cmd).bind <| (Reads.u32 a.begin).bind <| (Reads.u32 a.end).bind <|
      (Reads.u32 a.loopEnd).bind <| (Reads.u32 a.loopBegin).bind <| (Reads.u32 a.speed).bind <|
        (Reads.u32 a.speedChangeRate).bind <| (Reads.u32 a.time).bind <|
          (reads_safeStr h.animName).bind (reads_safeStr h.loopName).bind_pure
  valid := by
    refine BitVector.codes.valid.bind fun cmd _ hcmd => ?_
    refine Yields.u32.bind fun _ _ _ => Yields.u32.bind fun _ _ _ => ?_
    refine Yields.u32.bind fun _ _ _ => Yields.u32.bind fun _ _ _ => ?_
    refine Yields.u32.bind fun _ _ _ => Yields.u32.bind fun _ _ _ => ?_
    refine Yields.u32.bind fun _ _ _ => ?_
    refine codes_safeStr.valid.bind fun animName _ ha => ?_
    refine codes_safeStr.valid.bind fun loopName _ hl => ?_
    exact Yields.pure _ ⟨hcmd, ha, hl⟩

def GenericType.Proper : GenericType → Prop
  | .string s => Latin1Safe s
  | .any s => Latin1Safe s
  | _ => True

def GenericType.bytes : GenericType → Bytes
  | .int v => le 1 0 ++ le 4 v.toUInt32.toNat
  | .float v => le 1 1 ++ le 4 v.toNat
  | .bool v => le 1 2 ++ le 1 (if v then (1 : UInt8) else 0).toNat
  | .string s => le 1 3 ++ safeBytes s
  | .char v => le 1 4 ++ le 1 v.toNat
  | .any s => le 1 5 ++ safeBytes s
  | .uint v => le 1 6 ++ le 4 v.toNat
  | .double v => le 1 7 ++ le 8 v.toNat
  | .none => le 1 255

lemma GenericType.codes : Codes GenericType.streamRead GenericType.streamWrite
    GenericType.Proper GenericType.bytes where
  write v h := by
    cases v with
    | string s => rw [GenericType.streamWrite, writeSafeStr_latin1 h.length]; rfl
    | any s => rw [GenericType.streamWrite, writeSafeStr_latin1 h.length]; rfl
    | _ => rfl
  reads v h := by
    cases v with
    | int v => exact (Reads.u8 0).bind (Reads.i32 v).bind_pure
    | float v => exact (Reads.u8 1).bind (Reads.u32 v).bind_pure
    | bool v =>
      have := (Reads.u8 2).bind (f := fun _ => Reader.u8 >>= fun b =>
        pure (GenericType.bool (decide (b ≠ 0))))
        (Reads.u8 (if v then (1 : UInt8) else 0)).bind_pure
      cases v <;> exact this
    | string s => exact (Reads.u8 3).bind (reads_safeStr h).bind_pure
    | char v => exact (Reads.u8 4).bind (Reads.u8 v).bind_pure
    | any s => exact (Reads.u8 5).bind (reads_safeStr h).bind_pure
    | uint v => exact (Reads.u8 6).bind (Reads.u32 v).bind_pure
    | double v => exact (Reads.u8 7).bind (Reads.u64 v).bind_pure
    | none => exact (Reads.u8 255).bind_pure (f := fun _ => GenericType.none)
  valid := by
    refine Yields.u8.bind fun typeId _ _ => ?_
    split
    · exact Yields.i32.bind fun _ _ _ => Yields.pure _ trivial
    · exact Yields.u32.bind fun _ _ _ => Yields.pure _ trivial
    · exact Yields.u8.bind fun _ _ _ => Yields.pure _ trivial
    · exact codes_safeStr.valid.bind fun _ _ h => Yields.pure _ h
    · exact Yields.u8.bind fun _ _ _ => Yields.pure _ trivial
    · exact codes_safeStr.valid.bind fun _ _ h => Yields.pure _ h
    · exact Yields.u32.bind fun _ _ _ => Yields.pure _ trivial
    · exact Yields.u64.bind fun _ _ _ => Yields.pure _ trivial
    · exact Yields.pure _ trivial
    · exact Yields.fail _ _

/-! ### Buffers of lists -/

lemma andNot_two (v : UInt8) : (v &&& ~~~ 2) &&& 2 = 0 := by
  revert v
  exact uint8_all (by decide +kernel)

lemma andNot_two_of_clear (v : UInt8) : v &&& 2 = 0 → v &&& ~~~ 2 = v := by
  revert v
  exact uint8_all (by decide +kernel)

lemma or_two (v : UInt8) : (v ||| 2) &&& 2 ≠ 0 ∧ (v &&& 2 = 0 → (v ||| 2) &&& ~~~ 2 = v) := by
  revert v
  exact uint8_all (by decide +kernel)

lemma reads_listBuffer (Z : Zlib) {flags : UInt8} {buffer b : Bytes} (hf : flags &&& 2 = 0)
    (hb : writeListBuffer Z flags buffer = .ok b) :
    Reads (readListBuffer Z) b (flags, buffer) := by
  rw [writeListBuffer] at hb
  split at hb
  · cases hb
  rename_i hlen
  rw [not_not] at hlen
  simp only [andNot_two_of_clear flags hf] at hb
  split at hb
  · rename_i hc
    obtain ⟨-, -, hsmaller⟩ := hc
    obtain rfl := Out.put_eq_ok.1 hb
    refine (Reads.u8 (flags ||| 2)).bind (Reads.bind_count32 hlen fun size hsize => ?_)
    rw [if_pos (or_two flags).1]
    refine Reads.bind_count32 (hsmaller.trans hlen) fun count hcount => ?_
    rw [hcount]
    refine (Reads.exact (Z.compress buffer) rfl).bind_nil ?_
    rw [Z.inverse]
    simp only [hsize, ne_eq, not_true_eq_false, if_false, (or_two flags).2 hf]
    exact Reads.pure _
  · obtain rfl := Out.put_eq_ok.1 hb
    refine (Reads.u8 flags).bind (Reads.bind_count32 hlen fun size hsize => ?_)
    rw [if_neg (by simpa using hf)]
    intro rest
    simp [hsize]

lemma yields_listBuffer (Z : Zlib) :
    Yields (readListBuffer Z) fun list _ => list.1 &&& 2 = 0 := by
  refine Yields.u8.bind fun flags _ _ => Yields.u32.bind fun size _ _ => ?_
  split
  · refine Yields.u32.bind fun count _ _ => (Yields.exact _).bind fun compressed _ _ => ?_
    split
    · exact Yields.fail _ _
    · split
      · exact Yields.fail _ _
      · exact Yields.pure _ (andNot_two flags)
  · rename_i hf
    intro s a r hr
    by_cases hs : size.toNat ≤ s.length
    · simp only [hs, if_true, Except.ok.injEq, Prod.mk.injEq] at hr
      obtain ⟨rfl, rfl⟩ := hr
      exact ⟨_, (List.take_append_drop _ _).symm, by simpa using hf⟩
    · simp [hs] at hr

/-! ### Creatables -/

/-- The creatables the factory's reader returns. -/
inductive Creatable.Proper : Creatable → Prop
  | animCmdMsg {base callbacks anim} (hbase : base.Proper)
      (hmsg : ∀ c ∈ callbacks, c.isMessage = true) (hcallbacks : ∀ c ∈ callbacks, Proper c)
      (hanim : anim.Proper) : Proper (.animCmdMsg base callbacks anim)
  | messageWithCallbacks {base callbacks} (hbase : base.Proper)
      (hmsg : ∀ c ∈ callbacks, c.isMessage = true) (hcallbacks : ∀ c ∈ callbacks, Proper c) :
      Proper (.messageWithCallbacks base callbacks)
  | linkingMgrMsg {base contentFlags cmd flags items} (hbase : base.Proper)
      (hbits : contentFlags.bits.length < 2 ^ 32) (hcmd : contentFlags.get 0 = false → cmd = 0)
      (hlist : contentFlags.get 1 = false → (flags, items) = defaultList)
      (hflags : flags &&& 2 = 0) (hitems : ∀ item ∈ items, Proper item.2) :
      Proper (.linkingMgrMsg base contentFlags cmd flags items)
  | genericValue {value} (h : value.Proper) : Proper (.genericValue value)

namespace Factory

/-- `c` is read back from what it is written as. -/
def ReadsBack (Z : Zlib) (c : Creatable) : Prop :=
  ∀ b, c.streamWrite Z = .ok b →
    ReadsDeep (fun depth => readCreatableAs Z depth c.classId) b (some c)

lemma ReadsBack.readCreatable {Z : Zlib} {c : Creatable} {b : Bytes} (h : ReadsBack Z c)
    (hb : c.streamWrite Z = .ok b) :
    ReadsDeep (readCreatable Z) (le 2 c.classId.toNat ++ b) (some c) :=
  (ReadsDeep.of_reads (Reads.u16 c.classId)).bind (h b hb)

lemma writeCallbacks_eq (Z : Zlib) (cs : List Creatable) :
    writeCallbacks Z cs = Out.each (fun c => Out.u16 c.classId ++ c.streamWrite Z) cs := by
  induction cs with
  | nil => rfl
  | cons c cs ih => rw [writeCallbacks, Out.each, ih, Out.append_assoc]

lemma writeItems_eq (Z : Zlib) (items : List (UInt16 × Creatable)) : writeItems Z items =
    Out.each (fun item => Out.u16 item.1 ++ (Out.u16 item.2.classId ++ item.2.streamWrite Z))
      items := by
  induction items with
  | nil => rfl
  | cons item items ih => rw [writeItems, Out.each, ih, Out.append_assoc, Out.append_assoc]

lemma readsDeep_callbacks (Z : Zlib) {cs : List Creatable} (hmsg : ∀ c ∈ cs, c.isMessage = true)
    (h : ∀ c ∈ cs, ReadsBack Z c) {b : Bytes} (hb : writeCallbacks Z cs = .ok b) :
    ReadsDeep (fun depth => Reader.times (readCallback (readCreatable Z depth)) cs.length)
      b cs := by
  rw [writeCallbacks_eq] at hb
  refine ReadsDeep.times cs (fun c hc b₁ hb₁ => ?_) hb
  obtain ⟨b₂, hb₂, rfl⟩ := Out.put_append_eq_ok.1 hb₁
  refine ((h c hc).readCreatable hb₂).map fun depth hd => hd.bind_nil ?_
  simp only [hmsg c hc, if_true]
  exact Reads.pure _

lemma readsDeep_items (Z : Zlib) {items : List (UInt16 × Creatable)}
    (h : ∀ item ∈ items, ReadsBack Z item.2) {b : Bytes} (hb : writeItems Z items = .ok b) :
    ReadsDeep (fun depth => Reader.times (readItem (readCreatable Z depth)) items.length)
      b items := by
  rw [writeItems_eq] at hb
  refine ReadsDeep.times items (fun item hitem b₁ hb₁ => ?_) hb
  obtain ⟨b₂, hb₂, rfl⟩ := Out.put_append_eq_ok.1 hb₁
  obtain ⟨b₃, hb₃, rfl⟩ := Out.put_append_eq_ok.1 hb₂
  exact ((h item hitem).readCreatable hb₃).map fun depth hd =>
    (Reads.u16 item.1).bind (hd.bind_nil (Reads.pure _))

lemma readsDeep_list (Z : Zlib) {flags : UInt8} {items : List (UInt16 × Creatable)}
    (hf : flags &&& 2 = 0) (h : ∀ item ∈ items, ReadsBack Z item.2) {b : Bytes}
    (hb : (writeItemCount items.length ++ writeItems Z items).bind (writeListBuffer Z flags) =
      .ok b) :
    ReadsDeep (fun depth => readList Z (readCreatable Z depth)) b (flags, items) := by
  cases hw : writeItemCount items.length ++ writeItems Z items with
  | error e => rw [hw] at hb; cases hb
  | ok buffer =>
    rw [hw] at hb
    replace hb : writeListBuffer Z flags buffer = .ok b := hb
    obtain ⟨c, bs, hcount, hbs, rfl⟩ := Out.append_eq_ok.1 hw
    rw [writeItemCount] at hcount
    split at hcount
    · rename_i hlen
      obtain rfl := Out.put_eq_ok.1 hcount
      refine (readsDeep_items Z h hbs).map fun depth hd => ?_
      refine (reads_listBuffer Z hf hb).bind_nil (reads_within ?_)
      refine Reads.bind_count16 hlen fun count hc => ?_
      rw [hc]
      exact hd.bind_pure
    · cases hcount

lemma readsDeep_withCallbacks (Z : Zlib) {base : Message} {callbacks : List Creatable}
    (hbase : base.Proper) (hmsg : ∀ c ∈ callbacks, c.isMessage = true)
    (h : ∀ c ∈ callbacks, ReadsBack Z c) (hlen : callbacks.length < 2 ^ 32) {b : Bytes}
    (hb : writeCallbacks Z callbacks = .ok b) :
    ReadsDeep (fun depth => readWithCallbacks (readCreatable Z depth))
      (base.bytes ++ (le 4 callbacks.length ++ b)) (base, callbacks) := by
  refine (readsDeep_callbacks Z hmsg h hb).map fun depth hd => ?_
  refine (Message.codes.reads base hbase).bind (Reads.bind_count32 hlen fun count hc => ?_)
  rw [hc]
  exact hd.bind_pure

lemma bind_writeCount {n : ℕ} {text : String} {k : Bytes → Out} {b : Bytes}
    (h : (Message.writeCount n text).bind k = .ok b) : n < 2 ^ 32 ∧ k (le 4 n) = .ok b := by
  rw [Message.writeCount] at h
  split at h
  · exact ⟨‹_›, h⟩
  · cases h

/-- **A proper creatable is read back as it was written.** -/
theorem readsBack_of_proper (Z : Zlib) {c : Creatable} (h : c.Proper) : ReadsBack Z c := by
  induction h with
  | @animCmdMsg base callbacks anim hbase hmsg _ hanim ih =>
    intro b hb
    obtain ⟨hlen, hb⟩ := bind_writeCount hb
    rw [Message.codes.write _ hbase, AnimCmd.codes.write _ hanim] at hb
    obtain ⟨cs, hcs, rfl⟩ := Out.put_append_eq_ok.1 hb
    obtain ⟨ds, hds, rfl⟩ := Out.put_append_eq_ok.1 hcs
    obtain ⟨b₁, b₂, hb₁, hb₂, rfl⟩ := Out.append_eq_ok.1 hds
    obtain rfl := Out.put_eq_ok.1 hb₂
    refine ReadsDeep.succ ((readsDeep_withCallbacks Z hbase hmsg ih hlen hb₁).map fun d hd => ?_)
    rw [← List.append_assoc (le 4 _), ← List.append_assoc base.bytes]
    exact hd.bind (AnimCmd.codes.reads _ hanim).bind_pure
  | messageWithCallbacks hbase hmsg _ ih =>
    intro b hb
    obtain ⟨hlen, hb⟩ := bind_writeCount hb
    rw [Message.codes.write _ hbase] at hb
    obtain ⟨cs, hcs, rfl⟩ := Out.put_append_eq_ok.1 hb
    obtain ⟨ds, hds, rfl⟩ := Out.put_append_eq_ok.1 hcs
    refine ReadsDeep.succ ((readsDeep_withCallbacks Z hbase hmsg ih hlen hds).map fun d hd => ?_)
    exact hd.bind_pure
  | @linkingMgrMsg base contentFlags cmd flags items hbase hbits hcmd hlist hflags _ ih =>
    intro b hb
    rw [Creatable.streamWrite, Message.codes.write _ hbase, BitVector.codes.write _ hbits] at hb
    obtain ⟨cs, hcs, rfl⟩ := Out.put_append_eq_ok.1 hb
    obtain ⟨ds, hds, rfl⟩ := Out.put_append_eq_ok.1 hcs
    obtain ⟨b₁, b₂, hb₁, hb₂, rfl⟩ := Out.append_eq_ok.1 hds
    have hcmd' : Reads (Reader.optional (contentFlags.get 0 = true) Reader.u8 0) b₁ cmd := by
      split at hb₁
      · obtain rfl := Out.put_eq_ok.1 hb₁
        exact Reads.optional_pos ‹_› (Reads.u8 cmd)
      · rename_i hget
        obtain rfl := Out.put_eq_ok.1 hb₁
        rw [hcmd (Bool.eq_false_of_not_eq_true hget)]
        exact Reads.optional_neg hget
    have hargs : ReadsDeep (fun depth => Reader.optional (contentFlags.get 1 = true)
        (readList Z (readCreatable Z depth)) defaultList) b₂ (flags, items) := by
      split at hb₂
      · rename_i hget
        exact (readsDeep_list Z hflags ih hb₂).map fun d hd => Reads.optional_pos hget hd
      · rename_i hget
        obtain rfl := Out.put_eq_ok.1 hb₂
        rw [hlist (Bool.eq_false_of_not_eq_true hget)]
        exact ⟨0, fun d _ => Reads.optional_neg hget⟩
    refine ReadsDeep.succ (hargs.map fun d hd => ?_)
    exact (Message.codes.reads base hbase).bind <| (BitVector.codes.reads _ hbits).bind <|
      hcmd'.bind hd.bind_pure
  | genericValue h =>
    intro b hb
    rw [Creatable.streamWrite, GenericType.codes.write _ h] at hb
    obtain rfl := Out.put_eq_ok.1 hb
    exact ReadsDeep.succ (.of_reads (GenericType.codes.reads _ h).bind_pure)

/-! ### What the factory returns -/

section Returns

variable {read : Reader (Option Creatable)}
variable (hread : Yields read fun o _ => ∀ c ∈ o, c.Proper)
include hread

lemma yields_callback :
    Yields (readCallback read) fun c _ => c.isMessage = true ∧ c.Proper := by
  refine hread.bind fun item _ hitem => ?_
  cases item with
  | none => exact Yields.fail _ _
  | some msg =>
    dsimp only
    split
    · exact Yields.pure _ ⟨‹_›, hitem msg rfl⟩
    · exact Yields.fail _ _

lemma yields_item : Yields (readItem read) fun item _ => item.2.Proper := by
  refine Yields.u16.bind fun itemId _ _ => hread.bind fun item _ hitem => ?_
  cases item with
  | none => exact Yields.fail _ _
  | some c => exact Yields.pure _ (hitem c rfl)

lemma yields_withCallbacks : Yields (readWithCallbacks read) fun m _ =>
    m.1.Proper ∧ ∀ c ∈ m.2, c.isMessage = true ∧ c.Proper := by
  refine Message.codes.valid.bind fun base _ hbase => Yields.u32.bind fun count _ _ => ?_
  refine ((yields_callback hread).times_all count.toNat).bind ?_
  rintro callbacks _ ⟨-, hc⟩
  exact Yields.pure _ ⟨hbase, hc⟩

lemma yields_list (Z : Zlib) : Yields (readList Z read) fun list _ =>
    list.1 &&& 2 = 0 ∧ ∀ item ∈ list.2, item.2.Proper := by
  refine (yields_listBuffer Z).bind fun list _ hf => yields_within _ ?_
  refine Yields.u16.bind fun count _ _ => ((yields_item hread).times_all count.toNat).bind ?_
  rintro items _ ⟨-, hitems⟩
  exact Yields.pure _ ⟨hf, hitems⟩

lemma yields_linkingMgrMsg (Z : Zlib) :
    Yields (readBody Z read ClassID.linkingMgrMsg.code)
      fun o _ => ∀ c ∈ o, c.Proper ∧ c.classID = .linkingMgrMsg := by
  refine Message.codes.valid.bind fun base _ hbase => ?_
  refine BitVector.codes.valid.bind fun contentFlags _ hbits => ?_
  refine (Yields.u8.optional (R := fun cmd _ => contentFlags.get 0 = false → cmd = 0)
    (fun cmd _ hget _ hoff => by simp [hget] at hoff) fun _ _ => rfl).bind fun cmd _ hcmd => ?_
  refine ((yields_list hread Z).optional (R := fun list _ =>
    (contentFlags.get 1 = false → list = defaultList) ∧ list.1 &&& 2 = 0 ∧
      ∀ item ∈ list.2, item.2.Proper)
    (fun list _ hget h => ⟨fun hoff => by simp [hget] at hoff, h⟩)
    fun _ => ⟨fun _ => rfl, by decide, by simp [defaultList]⟩).bind ?_
  rintro list _ ⟨hdefault, hf, hitems⟩
  refine Yields.pure _ ?_
  rintro _ ⟨⟩
  exact ⟨.linkingMgrMsg hbase hbits hcmd hdefault hf hitems, rfl⟩

lemma yields_body (Z : Zlib) (classId : UInt16) : Yields (readBody Z read classId)
    fun o _ => ∀ c ∈ o, c.Proper ∧ c.classId = classId := by
  cases hid : ClassID.fromU16 classId with
  | none => simpa only [readBody, hid] using Yields.fail _ _
  | some id =>
    obtain rfl := ClassID.code_of_fromU16 hid
    refine Yields.imp (R := fun o _ => ∀ c ∈ o, c.Proper ∧ c.classID = id) ?_
      fun o _ h c hc => ⟨(h c hc).1, congrArg ClassID.code (h c hc).2⟩
    cases id with
    | soundBuffer | relevanceRegion | message => exact Yields.fail _ _
    | animCmdMsg =>
      refine (yields_withCallbacks hread).bind fun m _ hm => ?_
      refine AnimCmd.codes.valid.bind fun anim _ hanim => Yields.pure _ ?_
      rintro _ ⟨⟩
      exact ⟨.animCmdMsg hm.1 (fun c hc => (hm.2 c hc).1) (fun c hc => (hm.2 c hc).2) hanim, rfl⟩
    | messageWithCallbacks =>
      refine (yields_withCallbacks hread).bind fun m _ hm => Yields.pure _ ?_
      rintro _ ⟨⟩
      exact ⟨.messageWithCallbacks hm.1 (fun c hc => (hm.2 c hc).1) fun c hc => (hm.2 c hc).2, rfl⟩
    | linkingMgrMsg => exact yields_linkingMgrMsg hread Z
    | creatableGenericValue =>
      refine GenericType.codes.valid.bind fun value _ hvalue => Yields.pure _ ?_
      rintro _ ⟨⟩
      exact ⟨.genericValue hvalue, rfl⟩
    | nil => exact Yields.pure _ (by rintro _ ⟨⟩)

end Returns

/-- **The factory returns proper creatables only**, of the class asked for. -/
theorem yields_creatableAs (Z : Zlib) (depth : ℕ) (classId : UInt16) :
    Yields (readCreatableAs Z depth classId)
      fun o _ => ∀ c ∈ o, c.Proper ∧ c.classId = classId := by
  induction depth generalizing classId with
  | zero => exact Yields.fail _ _
  | succ depth ih =>
    refine yields_body ?_ Z classId
    refine Yields.u16.bind fun id _ _ => (ih id).imp ?_
    exact fun o _ h c hc => (h c hc).1

end Factory

end Moulars.Plasma
