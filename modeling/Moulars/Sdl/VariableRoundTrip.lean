import Moulars.Sdl.VariableCodec

/-!
When a simple variable survives being written and read.

The writer announces a timestamp it never writes, so the reader takes the first eight bytes of
the value for it. Points with a fixed count cannot be written at all, because they are compared
with their default as if they were vectors. The rest of the format is sound.
-/

namespace Moulars.Sdl

open Lib Lib.Wire Lib.Text Hashes Plasma

variable {X : Crates}

/-- `Variable::from_defaults` and `Variable::read` with room for `depth` levels. -/
def freshVariable (db : DescriptorDb X) (depth : ℕ) (descriptor : VarDescriptor) :
    Except Fault Variable :=
  Variable.fromDefaults db (State.fromDefaults db depth) descriptor

def readVariable (H : Host) (db : DescriptorDb X) (depth : ℕ) (v : Variable) : Reader Variable :=
  v.read H db depth (State.read H db depth)

/-- A variable of the simple type `t` with values such as the reader produces, as many as the
descriptor says and fewer than its limit, texts that fit, and any hint that can be read. -/
structure Produced (Z : Zlib) (v : Variable) (t : SimpleType) (vs : List t.Elem) : Prop where
  type : v.descriptor.varType = .simple t
  default : v.descriptor.WellTyped
  values : v.values = .simple t vs
  read : ∀ e ∈ vs, ∃ depth s r, (readElem Z depth t).run s = .ok (e, r)
  fits : ∀ e ∈ vs, Fits t e
  few : vs.length < 10000
  counted : ∀ n ∈ v.descriptor.count, vs.length = n
  hint : ∃ s r, (readSafeStr .latin1).run s = .ok (v.notificationHint, r)

/-- With enough room, reading what `v` was written as into a fresh variable consumes exactly
those bytes and restores the values, the timestamp and the hint. -/
def RoundTrips (H : Host) (db : DescriptorDb X) (v : Variable) : Prop :=
  ∃ room, ∀ depth ≥ room, ∃ b fresh w, v.write H.zlib = .ok b ∧
    freshVariable db depth v.descriptor = .ok fresh ∧ Reads (readVariable H db depth fresh) b w ∧
    w.values = v.values ∧ w.timestamp = v.timestamp ∧ w.notificationHint = v.notificationHint

/-- The values of a variable on the wire. -/
def valueBytes (Z : Zlib) (v : Variable) (t : SimpleType) (vs : List t.Elem) : Out :=
  writeVarCount v.descriptor vs.length ++ Out.each (writeElem Z t) vs

/-- The values happen to begin with the bytes of the variable's own timestamp, and what comes
after these happens to be the same values once more, in fewer bytes. Creatables allow for it,
because a list of them may be compressed or not. -/
def Realigns (H : Host) (v : Variable) (t : SimpleType) (vs : List t.Elem) : Prop :=
  ∃ rest, valueBytes H.zlib v t vs = .ok (v.timestamp.bytes ++ rest) ∧
    ReadsDeep (fun depth => readValues (σ := State) H depth v.descriptor t) rest v.values

/-- What a variable must be like to be restored. -/
structure Restorable (H : Host) (v : Variable) (t : SimpleType) (vs : List t.Elem) : Prop where
  /-- There is no timestamp. -/
  timestamp : v.timestamp = UnifiedTime.default ∨
    (t = .creatable ∧ v.isDefault = .ok false ∧ Realigns H v t vs)
  /-- It is not a fixed number of points. -/
  point : ¬ (t = .point3 ∧ v.descriptor.count ≠ none)
  /-- What compares equal to the default is the default. -/
  same : v.isDefault = .ok true → ∀ e ∈ vs, t.defaultElem v.descriptor.default = .ok e
  /-- Every element can be written. -/
  writable : ∀ e ∈ vs, ∃ b, writeElem H.zlib t e = .ok b

/-! ### Written and fresh variables -/

section

variable {Z : Zlib} {v : Variable} {t : SimpleType} {vs : List t.Elem}

/-- A variable of the simple type `t` with any number of values, and a hint that can be written. -/
structure Holding (v : Variable) (t : SimpleType) (vs : List t.Elem) : Prop where
  type : v.descriptor.varType = .simple t
  values : v.values = .simple t vs
  safe : Latin1Safe v.notificationHint

namespace Holding

variable (h : Holding v t vs)
include h

lemma isDefault_eq : v.isDefault = match v.descriptor.count with
    | none => .ok false
    | some _ => isDefaultSimple v.descriptor.default (.simple (σ := State) t vs) t := by
  have ht := h.type
  have hv := h.values
  obtain ⟨descriptor, values, timestamp, hint, dirty⟩ := v
  simp only at ht hv
  rw [Var.isDefault, hv]
  cases descriptor.count with
  | none => rfl
  | some n => simp only [ht]

lemma write_eq {same : Bool} (hs : v.isDefault = .ok same) :
    v.write Z = Out.put (hintBytes v.notificationHint) ++ (Out.u8 (v.writeFlags same) ++
      (if same then Out.put [] else valueBytes Z v t vs)) := by
  have ht := h.type
  have hv := h.values
  have hsafe := h.safe
  rw [← writeNotificationHint_eq hsafe]
  obtain ⟨descriptor, values, timestamp, hint, dirty⟩ := v
  simp only at ht hv
  subst hv
  rw [Var.write, ht]
  simp only [Var.writeSimple, hs, Except.bind, writeFlags_sameAsDefault, valueBytes]
  cases same <;> rfl

lemma write_eq_ok {same : Bool} (hs : v.isDefault = .ok same) {b : Bytes} : v.write Z = .ok b ↔
      ∃ body, (if same then Out.put [] else valueBytes Z v t vs) = .ok body ∧
        b = hintBytes v.notificationHint ++ (le 1 (v.writeFlags same).toNat ++ body) := by
  rw [h.write_eq hs, Out.put_append_eq_ok]
  constructor
  · rintro ⟨c, hc, rfl⟩
    obtain ⟨body, hbody, rfl⟩ := Out.put_append_eq_ok.1 hc
    exact ⟨body, hbody, rfl⟩
  · rintro ⟨body, hbody, rfl⟩
    exact ⟨_, Out.put_append_eq_ok.2 ⟨body, hbody, rfl⟩, rfl⟩

lemma exists_isDefault_of_write {b : Bytes} (hb : v.write Z = .ok b) :
    ∃ same, v.isDefault = .ok same := by
  have ht := h.type
  obtain ⟨descriptor, values, timestamp, hint, dirty⟩ := v
  simp only at ht
  rw [Var.write, ht] at hb
  obtain ⟨_, c, -, hc, -⟩ := Out.append_eq_ok.1 hb
  simp only [Var.writeSimple] at hc
  cases hd : Var.isDefault ⟨descriptor, values, timestamp, hint, dirty⟩ with
  | error e => rw [hd] at hc; cases hc
  | ok same => exact ⟨same, rfl⟩

end Holding

namespace Produced

variable (h : Produced Z v t vs)
include h

lemma storable : ∀ e ∈ vs, Storable t e := by
  intro e he
  obtain ⟨depth, s, r, hread⟩ := h.read e he
  obtain ⟨c, -, hs, -⟩ := yields_elem Z depth t s e r hread
  exact hs

lemma safe : Latin1Safe v.notificationHint := by
  obtain ⟨s, r, hread⟩ := h.hint
  obtain ⟨c, -, hs⟩ := codes_safeStr.valid s _ r hread
  exact hs

lemma holding : Holding v t vs := ⟨h.type, h.values, h.safe⟩

lemma exists_default :
    ∃ d, t.defaultElem v.descriptor.default = .ok d :=
  t.exists_defaultElem (by have := h.default; rwa [VarDescriptor.WellTyped, h.type] at this)

lemma descriptor_fits : v.descriptor.Fits := by
  have hcount : v.descriptor.count.getD 0 < 10000 := by
    cases hc : v.descriptor.count with
    | none => decide
    | some n => exact h.counted n hc ▸ h.few
  have hsize : t.elemSize ≤ 48 := by
    cases t <;> decide
  rw [VarDescriptor.Fits, h.type]
  calc
    t.elemSize * v.descriptor.count.getD 0 ≤ 48 * 10000 := Nat.mul_le_mul hsize hcount.le
    _ < 2 ^ 63 := by decide

lemma fresh_eq (db : DescriptorDb X) (depth : ℕ) {d : t.Elem}
    (hd : t.defaultElem v.descriptor.default = .ok d) :
    freshVariable db depth v.descriptor = .ok ⟨v.descriptor,
      .simple t (List.replicate (v.descriptor.count.getD 0) d), UnifiedTime.default, "",
        false⟩ := by
  refine Variable.fromDefaults_iff.2 ⟨h.descriptor_fits, _, rfl, ?_⟩
  rw [h.type]
  exact ⟨d, hd, rfl⟩

lemma exists_isDefault
    (hp : ¬ (t = .point3 ∧ v.descriptor.count ≠ none)) : ∃ same, v.isDefault = .ok same := by
  obtain ⟨d, hd⟩ := h.exists_default
  rw [h.holding.isDefault_eq]
  cases hc : v.descriptor.count with
  | none => exact ⟨false, rfl⟩
  | some n =>
    have hnp : t ≠ .point3 := fun ht => hp ⟨ht, by simp [hc]⟩
    cases t <;> simp only [isDefaultSimple, hd, Except.bind, checkDefault, dite_true] <;>
      first | exact ⟨_, rfl⟩ | exact absurd rfl hnp

lemma isDefault_point (hp : t = .point3 ∧ v.descriptor.count ≠ none)
    (same : Bool) : v.isDefault ≠ .ok same := by
  obtain ⟨rfl, hc⟩ := hp
  obtain ⟨d, hd⟩ := h.exists_default
  rw [h.holding.isDefault_eq]
  cases hn : v.descriptor.count with
  | none => exact absurd hn hc
  | some n => simp [isDefaultSimple, hd, Except.bind, checkDefault]

end Produced

end

/-! ### Reading what was written -/

section

variable {H : Host} {v : Variable} {t : SimpleType} {vs : List t.Elem}

lemma readVariable_eq {fresh : Variable} (h : fresh.descriptor.varType = .simple t)
    (db : DescriptorDb X) (depth : ℕ) :
    readVariable H db depth fresh = (do
      let notificationHint ← readNotificationHint
      let w ← fresh.readSimple H depth t
      pure { w with notificationHint, dirty := true }) := by
  rw [readVariable, Variable.read, Variable.readValue, h]

lemma readsDeep_values (h : Produced H.zlib v t vs) {b : Bytes}
    (hb : valueBytes H.zlib v t vs = .ok b) :
    ReadsDeep (fun depth => readValues (σ := State) H depth v.descriptor t) b v.values := by
  rw [valueBytes, writeVarCount_eq h.few] at hb
  obtain ⟨c, hc, rfl⟩ := Out.put_append_eq_ok.1 hb
  rw [h.values]
  have hvs := ReadsDeep.times (p := fun depth => readElem H.zlib depth t) vs
    (fun e he c hc => readsDeep_elem H.zlib (h.storable e he) (h.fits e he) hc) hc
  exact (ReadsDeep.of_reads (reads_varCount h.few h.counted)).bind hvs.bind_pure

lemma yields_values (H : Host) (descriptor : VarDescriptor) (depth : ℕ) (t : SimpleType) :
    Yields (readValues (σ := State) H depth descriptor t) fun values c =>
      ∃ vs, values = .simple t vs ∧
        (countBytes descriptor vs.length ++ vs.flatMap (elemBytes t)).length ≤ c.length := by
  refine (yields_varCount descriptor).bind fun n c hc => ?_
  have htight : Tight (readElem H.zlib depth t) (elemBytes t) :=
    (yields_elem H.zlib depth t).imp fun _ _ h => h.2
  have htimes : Yields (Reader.times (readElem H.zlib depth t) n) fun vs c =>
      vs.length = n ∧ (vs.flatMap (elemBytes t)).length ≤ c.length := by
    intro s a r hr
    obtain ⟨c₁, hs, hlen, -⟩ := (yields_elem H.zlib depth t).times n s a r hr
    obtain ⟨c₂, hs', hle⟩ := htight.times n s a r hr
    obtain rfl : c₁ = c₂ := List.append_cancel_right (hs.symm.trans hs')
    exact ⟨c₁, hs, hlen, hle⟩
  refine htimes.bind ?_
  rintro vs c' ⟨rfl, hle⟩
  refine Yields.pure _ ⟨vs, rfl, ?_⟩
  simp only [List.length_append, List.append_nil] at hle ⊢
  omega

lemma leads_variable (h : Holding v t vs) (H : Host) (db : DescriptorDb X) (depth : ℕ)
    (fresh : Variable) (hf : fresh.descriptor = v.descriptor) (same : Bool) :
    Leads (readVariable H db depth fresh)
      (hintBytes v.notificationHint ++ le 1 (v.writeFlags same).toNat) (do
        let timestamp ← readTimestamp H (v.writeFlags same) fresh.timestamp
        let values ← Reader.optional (v.writeFlags same &&& sameAsDefault = 0)
          (readValues H depth v.descriptor t) fresh.values
        pure (⟨v.descriptor, values, timestamp, v.notificationHint, true⟩ : Variable)) := by
  rw [readVariable_eq (hf ▸ h.type)]
  refine ((reads_notificationHint h.safe).leads _).trans ?_
  simp only [Var.readSimple, bind_assoc, pure_bind, hf]
  exact (Reads.u8 _).leads _

lemma reads_variable_iff (h : Holding v t vs) (db : DescriptorDb X) (depth : ℕ)
    (fresh : Variable) (hf : fresh.descriptor = v.descriptor) {w : Variable} {same : Bool}
    {b : Bytes} :
    Reads (readVariable H db depth fresh)
        (hintBytes v.notificationHint ++ (le 1 (v.writeFlags same).toNat ++ b)) w ↔
      Reads (do
        let timestamp ← readTimestamp H (v.writeFlags same) fresh.timestamp
        let values ← Reader.optional (v.writeFlags same &&& sameAsDefault = 0)
          (readValues H depth v.descriptor t) fresh.values
        pure (⟨v.descriptor, values, timestamp, v.notificationHint, true⟩ : Variable)) b w := by
  rw [← List.append_assoc]
  exact (leads_variable h H db depth fresh hf same).reads_iff

namespace Produced

lemma exists_valueBytes (h : Produced H.zlib v t vs) :
    (∃ b, valueBytes H.zlib v t vs = .ok b) ↔ ∀ e ∈ vs, ∃ b, writeElem H.zlib t e = .ok b := by
  rw [← Out.exists_each, valueBytes, writeVarCount_eq h.few]
  constructor
  · rintro ⟨b, hb⟩
    obtain ⟨c, hc, -⟩ := Out.put_append_eq_ok.1 hb
    exact ⟨c, hc⟩
  · rintro ⟨c, hc⟩
    exact ⟨_, Out.put_append_eq_ok.2 ⟨c, hc, rfl⟩⟩

lemma length_valueBytes (h : Produced H.zlib v t vs) (ht : t ≠ .creatable) {b : Bytes}
    (hb : valueBytes H.zlib v t vs = .ok b) :
    b.length = (countBytes v.descriptor vs.length ++ vs.flatMap (elemBytes t)).length := by
  rw [valueBytes, writeVarCount_eq h.few,
    Out.each_eq_put vs fun e he => writeElem_eq H.zlib ht (h.storable e he)] at hb
  rw [← Out.put_eq_ok.1 hb]

end Produced

lemma readTimestamp_of_ne (H : Host) {v : Variable} {same : Bool} (timestamp : UnifiedTime)
    (h : v.timestamp ≠ UnifiedTime.default) :
    readTimestamp H (v.writeFlags same) timestamp = UnifiedTime.streamRead := by
  rw [readTimestamp, if_pos ((writeFlags_hasTimestamp v same).2 h)]

/-- The fresh variable of a descriptor whose default is `d`. -/
def freshOf (descriptor : VarDescriptor) (t : SimpleType) (d : t.Elem) : Variable :=
  ⟨descriptor, .simple t (List.replicate (descriptor.count.getD 0) d), UnifiedTime.default, "",
    false⟩

/-- The variable as it is read: dirty, whatever it was. -/
def touched (v : Variable) : Variable := { v with dirty := true }

/-- Where the values are the default nothing is written after the flags, and the fresh values are
left alone, however many they are. -/
lemma reads_same (h : Holding v t vs) (hs : v.isDefault = .ok true)
    (hts : v.timestamp = UnifiedTime.default) {d : t.Elem}
    (hvs : vs = List.replicate (v.descriptor.count.getD 0) d) (H : Host) (db : DescriptorDb X) :
    ∃ b, v.write H.zlib = .ok b ∧
      ∀ depth, Reads (readVariable H db depth (freshOf v.descriptor t d)) b (touched v) := by
  have hfresh : (freshOf v.descriptor t d).values = v.values := by
    rw [h.values, hvs, freshOf]
  refine ⟨_, (h.write_eq_ok hs).2 ⟨[], rfl, rfl⟩, fun depth => ?_⟩
  refine (reads_variable_iff h db depth (freshOf v.descriptor t d) rfl).2 ?_
  rw [readTimestamp_default v true H _ hts, Reader.optional,
    if_neg (by rw [writeFlags_sameAsDefault]; decide), pure_bind, pure_bind, hfresh]
  simp only [freshOf, ← hts]
  exact Reads.pure _

lemma readsDeep_of_restorable (h : Produced H.zlib v t vs) (hr : Restorable H v t vs)
    (db : DescriptorDb X) {d : t.Elem} (hd : t.defaultElem v.descriptor.default = .ok d) :
    ∃ b, v.write H.zlib = .ok b ∧
      ReadsDeep (fun depth => readVariable H db depth (freshOf v.descriptor t d)) b
        (touched v) := by
  obtain ⟨same, hs⟩ := h.exists_isDefault hr.point
  cases same with
  | true =>
    have hts : v.timestamp = UnifiedTime.default := by
      rcases hr.timestamp with hts | ⟨-, hf, -⟩
      · exact hts
      · rw [hs] at hf; cases hf
    have hvs : vs = List.replicate (v.descriptor.count.getD 0) d := by
      refine List.eq_replicate_iff.2 ⟨?_, fun e he => ?_⟩
      · cases hc : v.descriptor.count with
        | none => rw [h.holding.isDefault_eq, hc] at hs; cases hs
        | some n => exact h.counted n hc
      · exact Except.ok.inj ((hr.same hs e he).symm.trans hd)
    obtain ⟨b, hb, hreads⟩ := reads_same h.holding hs hts hvs H db
    exact ⟨b, hb, 0, fun depth _ => hreads depth⟩
  | false =>
    have hopt : v.writeFlags false &&& sameAsDefault = 0 :=
      (writeFlags_sameAsDefault v false).2 rfl
    obtain ⟨b, hb⟩ := h.exists_valueBytes.2 hr.writable
    refine ⟨_, (h.holding.write_eq_ok hs).2 ⟨b, hb, rfl⟩, ?_⟩
    by_cases hts : v.timestamp = UnifiedTime.default
    · refine (readsDeep_values h hb).map fun depth hdepth => ?_
      refine (reads_variable_iff h.holding db depth (freshOf v.descriptor t d) rfl).2 ?_
      rw [readTimestamp_default v false H _ hts, Reader.optional, if_pos hopt, pure_bind]
      simp only [freshOf, ← hts]
      exact hdepth.bind_pure (f := fun values =>
        (⟨v.descriptor, values, v.timestamp, v.notificationHint, true⟩ : Variable))
    · obtain ⟨-, -, rest, hrest, hvalues⟩ := hr.timestamp.resolve_left hts
      obtain rfl : b = v.timestamp.bytes ++ rest := Except.ok.inj (hb.symm.trans hrest)
      refine hvalues.map fun depth hdepth => ?_
      refine (reads_variable_iff h.holding db depth (freshOf v.descriptor t d) rfl).2 ?_
      rw [readTimestamp_of_ne H _ hts, Reader.optional, if_pos hopt]
      exact (UnifiedTime.codes.reads v.timestamp trivial).bind (hdepth.bind_pure (f := fun values =>
        (⟨v.descriptor, values, v.timestamp, v.notificationHint, true⟩ : Variable)))

lemma roundTrips_of_restorable (h : Produced H.zlib v t vs) (hr : Restorable H v t vs)
    (db : DescriptorDb X) : RoundTrips H db v := by
  obtain ⟨d, hd⟩ := h.exists_default
  obtain ⟨b, hb, room, hroom⟩ := readsDeep_of_restorable h hr db hd
  exact ⟨room, fun depth hdepth => ⟨b, freshOf v.descriptor t d, touched v, hb,
    h.fresh_eq db depth hd, hroom depth hdepth, rfl, rfl, rfl⟩⟩

/-! ### What a variable that is restored must be like -/

lemma RoundTrips.parts (h : Produced H.zlib v t vs) {db : DescriptorDb X}
    (hrt : RoundTrips H db v) {d : t.Elem} (hd : t.defaultElem v.descriptor.default = .ok d) :
    ∃ same body room, v.isDefault = .ok same ∧
      (if same then Out.put [] else valueBytes H.zlib v t vs) = .ok body ∧
      ∀ depth ≥ room, ∃ w : Variable, w.values = v.values ∧ w.timestamp = v.timestamp ∧
        Reads (do
          let timestamp ← readTimestamp H (v.writeFlags same) UnifiedTime.default
          let values ← Reader.optional (v.writeFlags same &&& sameAsDefault = 0)
            (readValues H depth v.descriptor t) (freshOf v.descriptor t d).values
          pure (⟨v.descriptor, values, timestamp, v.notificationHint, true⟩ : Variable))
            body w := by
  obtain ⟨room, hroom⟩ := hrt
  obtain ⟨b, _, _, hb, -⟩ := hroom room (Nat.le_refl _)
  obtain ⟨same, hs⟩ := h.holding.exists_isDefault_of_write hb
  obtain ⟨body, hbody, rfl⟩ := (h.holding.write_eq_ok hs).1 hb
  refine ⟨same, body, room, hs, hbody, fun depth hdepth => ?_⟩
  obtain ⟨b', fresh, w, hb', hfresh, hreads, hvalues, hts, -⟩ := hroom depth hdepth
  obtain rfl := Except.ok.inj (hb.symm.trans hb')
  obtain rfl : freshOf v.descriptor t d = fresh :=
    Except.ok.inj ((h.fresh_eq db depth hd).symm.trans hfresh)
  exact ⟨w, hvalues, hts,
    (reads_variable_iff h.holding db depth (freshOf v.descriptor t d) rfl).1 hreads⟩

/-- Values other than creatables cannot be read from what is left of their bytes once a
timestamp has been. -/
lemma creatable_of_reads (h : Produced H.zlib v t vs) {timestamp : UnifiedTime} {rest : Bytes}
    (hb : valueBytes H.zlib v t vs = .ok (timestamp.bytes ++ rest)) {depth : ℕ}
    (hreads : Reads (readValues (σ := State) H depth v.descriptor t) rest v.values) :
    t = .creatable := by
  by_contra ht
  obtain ⟨c, hrest, vs', hvs', hle⟩ := yields_values H v.descriptor depth t _ _ _ (hreads [])
  rw [h.values] at hvs'
  obtain rfl : vs = vs' := by cases hvs'; rfl
  have hlen := h.length_valueBytes ht hb
  rw [List.append_nil, List.append_nil] at hrest
  rw [List.length_append, UnifiedTime.length_bytes, hrest] at hlen
  omega

lemma restorable_of_roundTrips (h : Produced H.zlib v t vs) {db : DescriptorDb X}
    (hrt : RoundTrips H db v) : Restorable H v t vs := by
  obtain ⟨d, hd⟩ := h.exists_default
  obtain ⟨same, body, room, hs, hbody, hreads⟩ := hrt.parts h hd
  have htimestamp : v.timestamp = UnifiedTime.default ∨
      (t = .creatable ∧ v.isDefault = .ok false ∧ Realigns H v t vs) := by
    by_cases hts : v.timestamp = UnifiedTime.default
    · exact .inl hts
    · right
      cases same with
      | true =>
        -- There are no bytes to read the timestamp from.
        obtain rfl := Out.put_eq_ok.1 hbody
        obtain ⟨w, -, -, hw⟩ := hreads room (Nat.le_refl _)
        rw [readTimestamp_of_ne H _ hts] at hw
        cases hw []
      | false =>
        have hopt : v.writeFlags false &&& sameAsDefault = 0 :=
          (writeFlags_sameAsDefault v false).2 rfl
        -- the timestamp is read from the first bytes of the values
        have hsplit (depth : ℕ) (hdepth : depth ≥ room) : ∃ rest,
            body = v.timestamp.bytes ++ rest ∧
              Reads (readValues (σ := State) H depth v.descriptor t) rest v.values := by
          obtain ⟨w, hvalues, htime, hw⟩ := hreads depth hdepth
          rw [readTimestamp_of_ne H _ hts, Reader.optional, if_pos hopt] at hw
          have hp := hw.bind_pure (f := fun v : Variable => (v.timestamp, v.values))
          rw [hvalues, htime] at hp
          simp only [bind_assoc, pure_bind] at hp
          exact UnifiedTime.yields.split (fun t => UnifiedTime.codes.reads t trivial) hp
        obtain ⟨rest, rfl, hrest⟩ := hsplit room (Nat.le_refl _)
        refine ⟨creatable_of_reads h hbody hrest, hs, rest, hbody, room, fun depth hdepth => ?_⟩
        obtain ⟨rest', heq, hrest'⟩ := hsplit depth hdepth
        rwa [List.append_cancel_left heq]
  have hsame : v.isDefault = .ok true → ∀ e ∈ vs, t.defaultElem v.descriptor.default = .ok e := by
    intro htrue
    obtain rfl : same = true := Except.ok.inj (hs.symm.trans htrue)
    have hts : v.timestamp = UnifiedTime.default := by
      refine htimestamp.resolve_right ?_
      rintro ⟨-, hfalse, -⟩
      rw [hs] at hfalse
      cases hfalse
    obtain rfl := Out.put_eq_ok.1 hbody
    obtain ⟨w, hvalues, -, hw⟩ := hreads room (Nat.le_refl _)
    rw [readTimestamp_default v true H _ hts, Reader.optional,
      if_neg (by rw [writeFlags_sameAsDefault]; decide), pure_bind, pure_bind] at hw
    cases hw []
    rw [freshOf, h.values] at hvalues
    intro e he
    cases hvalues
    rw [hd, List.eq_of_mem_replicate he]
  refine ⟨htimestamp, fun hp => h.isDefault_point hp same hs, hsame, ?_⟩
  cases same with
  | false => exact h.exists_valueBytes.1 ⟨body, hbody⟩
  | true =>
    intro e he
    by_cases ht : t = .creatable
    · subst ht
      obtain rfl : e = none := (Except.ok.inj (hsame hs e he)).symm
      exact ⟨_, rfl⟩
    · exact ⟨_, writeElem_eq H.zlib ht (h.storable e he)⟩

/-- **When a variable is restored.** Whatever its type, its count, its values and its hint, a
variable read from the bytes it was written as is restored exactly if it has no timestamp, is
not a fixed number of points, and is the default if it is taken for it. -/
theorem variable_restored_iff (h : Produced H.zlib v t vs) (db : DescriptorDb X) :
    RoundTrips H db v ↔ Restorable H v t vs :=
  ⟨restorable_of_roundTrips h, fun hr => roundTrips_of_restorable h hr db⟩

end

/-! ### A variable, with and without a timestamp -/

def plainHost : Host := ⟨Zlib.stored, .ok UnifiedTime.default⟩

def sampleVariable (timestamp : UnifiedTime) : Variable :=
  ⟨⟨"bTestVar1", .simple .bool, some 1, some (.bool false)⟩, .simple .bool [true], timestamp, "",
    true⟩

lemma produced_sampleVariable (timestamp : UnifiedTime) :
    Produced plainHost.zlib (sampleVariable timestamp) .bool [true] where
  type := rfl
  default := by rintro _ ⟨⟩; rfl
  values := rfl
  read := fun e he => ⟨0, [1], [], by rw [List.mem_singleton.1 he]; rfl⟩
  fits := fun _ _ => trivial
  few := by decide
  counted := by rintro _ ⟨⟩; rfl
  hint := ⟨[0x00, 0xF0], [], rfl⟩

theorem sampleVariable_restored :
    RoundTrips plainHost (DescriptorDb.empty : DescriptorDb Crates.plain)
      (sampleVariable UnifiedTime.default) :=
  (variable_restored_iff (produced_sampleVariable _) _).2
    ⟨.inl rfl, by simp, by rintro ⟨⟩, fun e _ => ⟨_, rfl⟩⟩

/-- The writer announces the timestamp and leaves it out, so that the reader runs out of
bytes. -/
theorem timestamp_not_restored :
    Produced plainHost.zlib (sampleVariable ⟨1, 0⟩) .bool [true] ∧
      (sampleVariable ⟨1, 0⟩).write plainHost.zlib = .ok [0x00, 0x14, 0x01] ∧
      ¬ RoundTrips plainHost (DescriptorDb.empty : DescriptorDb Crates.plain)
        (sampleVariable ⟨1, 0⟩) := by
  refine ⟨produced_sampleVariable _, rfl, fun h => ?_⟩
  have hr := restorable_of_roundTrips (produced_sampleVariable _) h
  rcases hr.timestamp with hts | ⟨ht, -⟩
  · exact absurd hts (by decide)
  · cases ht

end Moulars.Sdl
