import Moulars.Sdl.Parser
import Moulars.Sdl.VariableRoundTrip

/-!
States saved to blobs and loaded again.

A blob names a descriptor and holds the variables that are dirty; loading it starts from the
defaults of the descriptor. What is not dirty is therefore lost if it is not a default, and
the setters mark everything they touch.
-/

namespace Moulars.Sdl

open Lib Lib.Wire Lib.Sparse Lib.Fallible Lib.Keyed
open Hashes Plasma

variable {X : Crates}

/-! ### Default states -/

variable {db : DescriptorDb X} {v : Variable} {depth : ℕ} {d : StateDescriptor} {s : State}
  {t : SimpleType} {b : Variable} {bs vs : List Variable}

lemma Variable.fromDefaults_eq_ok {build : StateDescriptor → Except Fault State}
    {descriptor : VarDescriptor} (h : Variable.fromDefaults db build descriptor = .ok v) :
    v.descriptor = descriptor ∧ v.dirty = false ∧
      match descriptor.varType with
      | .simple t => ∃ d, t.defaultElem descriptor.default = .ok d ∧ v = freshOf descriptor t d
      | .stateDesc _ => ∃ states, v.values = .stateDesc states := by
  obtain ⟨-, values, rfl, hvalues⟩ := Variable.fromDefaults_iff.1 h
  refine ⟨rfl, rfl, ?_⟩
  cases ht : descriptor.varType with
  | simple t =>
    rw [ht] at hvalues
    obtain ⟨d, hd, rfl⟩ := hvalues
    exact ⟨d, hd, rfl⟩
  | stateDesc name =>
    rw [ht] at hvalues
    obtain ⟨e, states, -, -, rfl⟩ := hvalues
    exact ⟨states, rfl⟩

lemma State.mem_fromDefaults (h : State.fromDefaults db (depth + 1) d = .ok s)
    (hv : v ∈ s.simpleVars ++ s.statedescVars) : v.descriptor ∈ d.vars ∧
      Variable.fromDefaults db (State.fromDefaults db depth) v.descriptor = .ok v := by
  obtain ⟨vars, hvars, rfl⟩ := map_eq_ok.1 h
  have hmem : v ∈ vars := by
    rcases List.mem_append.1 hv with hv | hv
    · exact (List.mem_filter.1 hv).1
    · exact (List.mem_filter.1 hv).1
  obtain ⟨descriptor, hmem, hd⟩ := exists_of_mem_mapM hvars hmem
  have hdesc := (Variable.fromDefaults_eq_ok hd).1
  exact ⟨hdesc ▸ hmem, hdesc ▸ hd⟩

/-- The variable has the values its descriptor gives by default. -/
def Var.AtDefaults (db : DescriptorDb X) (v : Variable) : Prop :=
  ∃ depth fresh, Variable.fromDefaults db (State.fromDefaults db depth) v.descriptor = .ok fresh ∧
    v.values = fresh.values

/-- A state built from the defaults of `d`. -/
structure IsDefaultOf (s : State) (d : StateDescriptor) : Prop where
  descriptor : s.descriptor = d
  object : s.object = none
  flags : s.flags = 0
  clean : ∀ v ∈ s.simpleVars ++ s.statedescVars, v.dirty = false
  simple : ∀ v ∈ s.simpleVars, v.descriptor ∈ d.vars ∧ ∃ t e, v.descriptor.varType = .simple t ∧
    t.defaultElem v.descriptor.default = .ok e ∧ v = freshOf v.descriptor t e
  statedesc : ∀ v ∈ s.statedescVars, ∃ states, v.values = .stateDesc states

lemma State.fromDefaults_eq_ok (h : State.fromDefaults db depth d = .ok s) : IsDefaultOf s d := by
  cases depth with
  | zero => cases h
  | succ depth =>
    have hall : ∀ v ∈ s.simpleVars ++ s.statedescVars, _ := fun v => State.mem_fromDefaults h
    obtain ⟨vars, -, rfl⟩ := map_eq_ok.1 h
    refine ⟨rfl, rfl, rfl, fun v hv => ?_, fun v hv => ?_, fun v hv => ?_⟩
    · exact (Variable.fromDefaults_eq_ok (hall v hv).2).2.1
    · obtain ⟨hmem, hd⟩ := hall v (List.mem_append_left _ hv)
      refine ⟨hmem, ?_⟩
      cases ht : v.descriptor.varType with
      | stateDesc name => simp [Var.isStateDesc, ht] at hv
      | simple t =>
        have hfresh := (Variable.fromDefaults_eq_ok hd).2.2
        rw [ht] at hfresh
        obtain ⟨e, he, hv'⟩ := hfresh
        exact ⟨t, e, rfl, he, hv'⟩
    · have hd := (hall v (List.mem_append_right _ hv)).2
      cases ht : v.descriptor.varType with
      | stateDesc name =>
        have hfresh := (Variable.fromDefaults_eq_ok hd).2.2
        rwa [ht] at hfresh
      | simple t => simp [Var.isStateDesc, ht] at hv

/-! ### Reading a blob -/

lemma reads_compressedSize {maxHint n : ℕ} {c : Bytes} (h : writeCompressedSize maxHint n = .ok c) :
    Reads (readCompressedSize maxHint) c n := by
  simp only [writeCompressedSize] at h
  rw [readCompressedSize]
  split_ifs at h ⊢
  all_goals first
    | exact Out.put_eq_ok.1 h ▸ Reads.word (by omega)
    | cases h

lemma varEntries_eq (Z : Zlib) (vs : List Variable) :
    varEntries Z vs = vs.map fun v => (v.dirty, v.write Z) := by
  induction vs with
  | nil => rfl
  | cons v vs ih => rw [varEntries, ih, List.map_cons]

lemma State.write_eq (Z : Zlib) (s : State) : s.write Z =
    Out.u16 s.flags ++ (Out.u8 ioVersion ++
      (writeDirty (writeCompressedSize s.descriptor.vars.length) (varEntries Z s.simpleVars) ++
        writeDirty (writeCompressedSize s.descriptor.vars.length)
          (varEntries Z s.statedescVars))) := by
  cases s
  rfl

section Blobs

variable {H : Host} {db : DescriptorDb X} {depth : ℕ} {s : State} {vs ws : List Variable}

lemma reads_state (s₀ : State) (hdesc : s₀.descriptor = s.descriptor)
    (hsimple : Turns (readVariable H db depth) (varEntries H.zlib s.simpleVars) s₀.simpleVars vs)
    (hstatedesc : Turns (readVariable H db depth) (varEntries H.zlib s.statedescVars)
      s₀.statedescVars ws) {b : Bytes} (hb : s.write H.zlib = .ok b) :
    Reads (State.read H db (depth + 1) s₀) b
      { s₀ with flags := s.flags, simpleVars := vs, statedescVars := ws } := by
  rw [State.write_eq] at hb
  obtain ⟨c, hc, rfl⟩ := Out.put_append_eq_ok.1 hb
  obtain ⟨d, hd, rfl⟩ := Out.put_append_eq_ok.1 hc
  obtain ⟨b₁, b₂, hb₁, hb₂, rfl⟩ := Out.append_eq_ok.1 hd
  refine (Reads.u16 s.flags).bind ((Reads.u8 ioVersion).bind ?_)
  rw [if_neg (not_not.2 rfl), State.readVars, hdesc]
  exact (reads_dirty hsimple (fun _ _ _ => reads_compressedSize) hb₁).bind
    ((reads_dirty hstatedesc (fun _ _ _ => reads_compressedSize) hb₂).bind_pure)

lemma reads_lift {α : Type} {x : Except Fault α} {a : α} (h : x = .ok a) :
    Reads (Reader.lift x) [] a := fun _ => h ▸ rfl

lemma blobFlags_varLengthIo (some : Bool) :
    (varLengthIo ||| if some then hasUoid else 0) &&& varLengthIo ≠ 0 := by
  cases some <;> decide

lemma blobFlags_hasUoid (some : Bool) :
    (varLengthIo ||| if some then hasUoid else 0) &&& hasUoid ≠ 0 ↔ some = true := by
  cases some <;> decide

lemma reads_object {o : Option Uoid} (h : ∀ u ∈ o, u.Named) {b : Bytes}
    (hb : writeObject o = .ok b) :
    Reads (readObject (varLengthIo ||| if o.isSome then hasUoid else 0)) b o := by
  cases o with
  | none =>
    obtain rfl := Out.put_eq_ok.1 hb
    exact Reads.optional_neg (by rw [blobFlags_hasUoid]; decide)
  | some u =>
    rw [writeObject, Uoid.codes.write u (h u rfl)] at hb
    obtain rfl := Out.put_eq_ok.1 hb
    exact Reads.optional_pos ((blobFlags_hasUoid _).2 rfl) (Uoid.codes.reads u (h u rfl)).bind_pure

lemma length_of_writeSafeStr {name : String} {b : Bytes}
    (h : writeSafeStr name .latin1 = .ok b) : name.toList.length ≤ 0x0FFF := by
  by_contra hlen
  rw [writeSafeStr, writeSafe, if_pos (by simpa using hlen)] at h
  cases h

/-- The blob of a state is a head, after which the reader has the defaults of the descriptor it
names, and the state. -/
lemma leads_blob {s₀ : State} (hholds : db.Holds s.descriptor)
    (hname : Parser.IsAscii s.descriptor.name)
    (hdefault : State.fromDefaults db depth s.descriptor = .ok s₀)
    (hobject : ∀ u ∈ s.object, u.Named) {b : Bytes} (hb : s.toBlob H.zlib = .ok b) :
    ∃ head body, b = head ++ body ∧ s.write H.zlib = .ok body ∧
      Leads (State.readBlob H db depth) head
        (State.read H db depth { s₀ with object := s.object }) := by
  obtain ⟨c, hc, rfl⟩ := Out.put_append_eq_ok.1 hb
  obtain ⟨b₁, d, hb₁, hd, rfl⟩ := Out.append_eq_ok.1 hc
  obtain ⟨e, he, rfl⟩ := Out.put_append_eq_ok.1 hd
  obtain ⟨b₂, b₃, hb₂, hb₃, rfl⟩ := Out.append_eq_ok.1 he
  have hlen := length_of_writeSafeStr hb₁
  rw [writeSafeStr_latin1 hlen] at hb₁
  obtain rfl := Out.put_eq_ok.1 hb₁
  refine ⟨le 2 (varLengthIo ||| if s.object.isSome then hasUoid else 0).toNat ++
    (safeBytes s.descriptor.name ++ (le 2 s.descriptor.version.toNat ++ b₂)), b₃,
    by simp only [List.append_assoc], hb₃, ((Reads.u16 _).leads _).trans ?_⟩
  rw [if_neg (blobFlags_varLengthIo _)]
  refine ((reads_safeStr (latin1Safe_of_ascii hname hlen)).leads _).trans
    (((Reads.u16 _).leads _).trans ?_)
  rw [show db.getVersion s.descriptor.name s.descriptor.version = some s.descriptor from hholds]
  exact ((reads_lift hdefault).leads _).trans ((reads_object hobject hb₂).leads _)

/-- **Loading a blob** puts the variables that were written over the defaults of the
descriptor it names. -/
lemma reads_blob {s₀ : State} (hholds : db.Holds s.descriptor)
    (hname : Parser.IsAscii s.descriptor.name)
    (hdefault : State.fromDefaults db (depth + 1) s.descriptor = .ok s₀)
    (hobject : ∀ u ∈ s.object, u.Named)
    (hsimple : Turns (readVariable H db depth) (varEntries H.zlib s.simpleVars) s₀.simpleVars vs)
    (hstatedesc : Turns (readVariable H db depth) (varEntries H.zlib s.statedescVars)
      s₀.statedescVars ws) {b : Bytes} (hb : s.toBlob H.zlib = .ok b) :
    Reads (State.readBlob H db (depth + 1)) b
      ⟨s.descriptor, vs, ws, s.object, s.flags⟩ := by
  have hdesc := (State.fromDefaults_eq_ok hdefault).descriptor
  obtain ⟨head, body, rfl, hbody, hhead⟩ := leads_blob hholds hname hdefault hobject hb
  rw [hhead.reads_iff, ← hdesc]
  exact reads_state { s₀ with object := s.object } hdesc hsimple hstatedesc hbody

end Blobs

/-! ### What setters do -/

/-- The types that have setters. -/
def Settable (t : SimpleType) : Prop := t = .bool ∨ t = .byte ∨ t = .int

/-- `v` is what setters may have made of `b`: nothing, or other values and the dirty flag. -/
def SetFrom (b v : Variable) : Prop :=
  v = b ∨ ∃ t us vs, Settable t ∧ b.values = .simple t us ∧ vs.length = us.length ∧
    v = { b with values := .simple t vs, dirty := true }

lemma Var.setElem_eq_ok {σ : Type} {typeName : String} {v v' : Var σ} {index : ℕ} {value : t.Elem}
    (h : v.setElem t typeName index value = .ok v') :
    ∃ us, v.values = .simple t us ∧
      v' = { v with values := .simple t (us.set index value), dirty := true } := by
  unfold Var.setElem at h
  simp only at h
  split at h
  · rename_i t' us hv
    split at h
    · rename_i ht
      subst ht
      split at h
      · cases h
        exact ⟨us, hv, rfl⟩
      · cases h
    · cases h
  · cases h

lemma SetFrom.setElem {v' : Variable} (ht : Settable t) {typeName : String} {index : ℕ}
    {value : t.Elem} (h : SetFrom b v) (hset : v.setElem t typeName index value = .ok v') :
    SetFrom b v' := by
  obtain ⟨us, hus, rfl⟩ := Var.setElem_eq_ok hset
  right
  rcases h with rfl | ⟨t', us', vs, -, hb, hlen, rfl⟩
  · exact ⟨t, us, us.set index value, ht, hus, by simp, rfl⟩
  · cases hus
    exact ⟨t, us', us.set index value, ht, hb, by simpa using hlen, rfl⟩

lemma SetFrom.run {v' : Variable} {call : SetCall} (h : SetFrom b v) (hrun : call.run v = .ok v') :
    SetFrom b v' := by
  cases call with
  | setBool name index value => exact h.setElem (.inl rfl) hrun
  | setByte name index value => exact h.setElem (.inr (.inl rfl)) hrun
  | setInt name index value => exact h.setElem (.inr (.inr rfl)) hrun

lemma SetFrom.descriptor_eq (h : SetFrom b v) : v.descriptor = b.descriptor := by
  rcases h with rfl | ⟨_, _, _, -, -, -, rfl⟩ <;> rfl

/-- `s` differs from `s₀` by what setters do. -/
structure SetState (s₀ s : State) : Prop where
  descriptor : s.descriptor = s₀.descriptor
  object : s.object = s₀.object
  flags : s.flags = s₀.flags
  simple : List.Forall₂ SetFrom s₀.simpleVars s.simpleVars
  statedesc : List.Forall₂ SetFrom s₀.statedescVars s.statedescVars

lemma SetState.refl (s : State) : SetState s s :=
  ⟨rfl, rfl, rfl, List.forall₂_same.2 fun _ _ => .inl rfl, List.forall₂_same.2 fun _ _ => .inl rfl⟩

lemma SetState.set {s₀ : State} (h : SetState s₀ s) (call : SetCall) :
    SetState s₀ (s.set call) := by
  rw [State.set]
  split
  · rename_i s' hs'
    obtain ⟨o, ho, hs'⟩ := bind_eq_ok.1 hs'
    cases o with
    | some simpleVars =>
      cases hs'
      exact ⟨h.descriptor, h.object, h.flags,
        forall₂_modifyFirst (fun _ _ _ => SetFrom.run) h.simple ho, h.statedesc⟩
    | none =>
      obtain ⟨o, ho, heq⟩ := map_eq_ok.1 hs'
      cases o with
      | some statedescVars =>
        cases heq
        exact ⟨h.descriptor, h.object, h.flags, h.simple,
          forall₂_modifyFirst (fun _ _ _ => SetFrom.run) h.statedesc ho⟩
      | none => exact heq ▸ h
  · exact h

lemma SetState.setAll {s₀ : State} (h : SetState s₀ s) (calls : List SetCall) :
    SetState s₀ (calls.foldl State.set s) := by
  induction calls generalizing s with
  | nil => exact h
  | cons call calls ih => exact ih (h.set call)

lemma map_descriptor_eq (h : List.Forall₂ SetFrom bs vs) :
    vs.map Var.descriptor = bs.map Var.descriptor := by
  induction h with
  | nil => rfl
  | cons hbv _ ih => rw [List.map_cons, List.map_cons, hbv.descriptor_eq, ih]

lemma SetState.descriptor_mem {s₀ : State} (h : SetState s₀ s) (hd : IsDefaultOf s₀ d)
    (hv : v ∈ s.simpleVars) : v.descriptor ∈ d.vars := by
  have hmem := List.mem_map_of_mem (f := Var.descriptor) hv
  rw [map_descriptor_eq h.simple] at hmem
  obtain ⟨b, hb, heq⟩ := List.mem_map.1 hmem
  exact heq ▸ (hd.simple b hb).1

/-! ### Variables that were set -/

/-- A variable declared with as many elements as the writer still takes and the reader does not,
where one was set to something else than the default. -/
def AtLimit (v : Variable) : Prop :=
  v.dirty = true ∧ v.descriptor.count = some 10000 ∧
    ∃ t vs, v.values = .simple t vs ∧ ∃ x ∈ vs, t.defaultElem v.descriptor.default ≠ .ok x

lemma Settable.ne_creatable (h : Settable t) : t ≠ .creatable := by
  rcases h with rfl | rfl | rfl <;> decide

lemma Settable.storable (h : Settable t) (e : t.Elem) :
    Storable t e ∧ Fits t e := by
  rcases h with rfl | rfl | rfl <;> exact ⟨trivial, trivial⟩

lemma readElem_depth (Z : Zlib) (ht : t ≠ .creatable) (depth depth' : ℕ) :
    readElem Z depth t = readElem Z depth' t := by
  cases t with
  | creatable => exact absurd rfl ht
  | _ => rfl

lemma readVariable_depth (H : Host) (db : DescriptorDb X) (ht : t ≠ .creatable)
    (hv : v.descriptor.varType = .simple t) (depth depth' : ℕ) :
    readVariable H db depth v = readVariable H db depth' v := by
  rw [readVariable_eq hv, readVariable_eq hv]
  simp only [Var.readSimple, readValues, readElem_depth H.zlib ht depth depth']

section

variable {t : SimpleType} {e : t.Elem} {descriptor : VarDescriptor} {vs : List t.Elem}

/-- A variable that setters have touched. -/
def setVariable (descriptor : VarDescriptor) (t : SimpleType) (vs : List t.Elem) : Variable :=
  ⟨descriptor, .simple t vs, UnifiedTime.default, "", true⟩

lemma produced_setVariable (Z : Zlib) (ht : Settable t) (htype : descriptor.varType = .simple t)
    (htyped : descriptor.WellTyped) (hfew : ∀ n ∈ descriptor.count, n < 10000)
    (hlen : vs.length = descriptor.count.getD 0) :
    Produced Z (setVariable descriptor t vs) t vs where
  type := htype
  default := htyped
  values := rfl
  read e _ := by
    obtain ⟨hs, hf⟩ := ht.storable e
    obtain ⟨depth, hread⟩ := readsDeep_elem Z hs hf (writeElem_eq Z ht.ne_creatable hs)
    exact ⟨depth, _, _, hread depth (Nat.le_refl _) []⟩
  fits e _ := (ht.storable e).2
  few := by
    cases hc : descriptor.count with
    | none => simp [hlen, hc]
    | some n => simpa [hlen, hc] using hfew n hc
  counted n hn := by
    have hc : descriptor.count = some n := hn
    simp [hlen, hc]
  hint := ⟨[0x00, 0xF0], [], rfl⟩

lemma isDefaultSimple_iff (ht : Settable t) (hd : t.defaultElem descriptor.default = .ok e) :
    isDefaultSimple descriptor.default (.simple (σ := State) t vs) t = .ok true ↔
      ∀ x ∈ vs, x = e := by
  rcases ht with rfl | rfl | rfl <;>
    simp [isDefaultSimple, hd, Except.bind, checkDefault, SimpleType.sameElem]

lemma restorable_setVariable (H : Host) (ht : Settable t)
    (h : Produced H.zlib (setVariable descriptor t vs) t vs) :
    Restorable H (setVariable descriptor t vs) t vs where
  timestamp := .inl rfl
  point := by rcases ht with rfl | rfl | rfl <;> simp
  same hs x hx := by
    obtain ⟨d, hd⟩ := h.exists_default
    rw [h.holding.isDefault_eq] at hs
    split at hs
    · cases hs
    · rw [hd, (isDefaultSimple_iff ht hd).1 hs x hx]
  writable x _ := ⟨_, writeElem_eq H.zlib ht.ne_creatable (ht.storable x).1⟩

lemma holding_setVariable (htype : descriptor.varType = .simple t) :
    Holding (setVariable descriptor t vs) t vs := ⟨htype, rfl, latin1Safe_empty⟩

lemma isDefault_setVariable (ht : Settable t) (htype : descriptor.varType = .simple t)
    (hd : t.defaultElem descriptor.default = .ok e) :
    (setVariable descriptor t vs).isDefault = .ok true ↔
      descriptor.count ≠ none ∧ ∀ x ∈ vs, x = e := by
  rw [(holding_setVariable htype).isDefault_eq, show (setVariable descriptor t vs).descriptor =
    descriptor from rfl]
  cases descriptor.count with
  | none => simp
  | some n => simpa using isDefaultSimple_iff ht hd

lemma le_of_writeVarCount {n : ℕ} {c : Bytes} (h : writeVarCount descriptor n = .ok c) :
    n ≤ 10000 := by
  by_contra hn
  rw [writeVarCount, if_pos (by omega)] at h
  cases h

lemma length_le_of_write {Z : Zlib} (ht : Settable t) (htype : descriptor.varType = .simple t)
    (hd : t.defaultElem descriptor.default = .ok e)
    (hdefault : ¬ (descriptor.count ≠ none ∧ ∀ x ∈ vs, x = e)) {c : Bytes}
    (hc : (setVariable descriptor t vs).write Z = .ok c) : vs.length ≤ 10000 := by
  have hholding : Holding (setVariable descriptor t vs) t vs := holding_setVariable htype
  obtain ⟨same, hs⟩ := hholding.exists_isDefault_of_write hc
  cases same with
  | true => exact absurd ((isDefault_setVariable ht htype hd).1 hs) hdefault
  | false =>
    obtain ⟨body, hbody, -⟩ := (hholding.write_eq_ok hs).1 hc
    obtain ⟨_, _, hcount, -, -⟩ := Out.append_eq_ok.1 hbody
    exact le_of_writeVarCount hcount

/-- A variable that was set is read back over the fresh one, if its values fit its descriptor and
are few enough or all the default. -/
lemma reads_setVariable (H : Host) (db : DescriptorDb X) (depth : ℕ) (ht : Settable t)
    (htype : descriptor.varType = .simple t) (htyped : descriptor.WellTyped)
    (hlen : vs.length = descriptor.count.getD 0) (hlimit : ¬ AtLimit (setVariable descriptor t vs))
    (hd : t.defaultElem descriptor.default = .ok e) {c : Bytes}
    (hc : (setVariable descriptor t vs).write H.zlib = .ok c) :
    Reads (readVariable H db depth (freshOf descriptor t e)) c (setVariable descriptor t vs) := by
  have hholding : Holding (setVariable descriptor t vs) t vs := holding_setVariable htype
  by_cases hdefault : descriptor.count ≠ none ∧ ∀ x ∈ vs, x = e
  · have hvs : vs = List.replicate (descriptor.count.getD 0) e :=
      List.eq_replicate_iff.2 ⟨hlen, hdefault.2⟩
    obtain ⟨c', hc', hreads⟩ := reads_same hholding
      ((isDefault_setVariable ht htype hd).2 hdefault) rfl hvs H db
    obtain rfl : c' = c := Except.ok.inj (hc'.symm.trans hc)
    exact hreads depth
  · have hfew : ∀ n ∈ descriptor.count, n < 10000 := by
      intro n hn
      have hcount : descriptor.count = some n := hn
      obtain ⟨x, hx, hne⟩ : ∃ x ∈ vs, x ≠ e := by simpa [hcount] using hdefault
      have hle : vs.length ≤ 10000 := length_le_of_write ht htype hd hdefault hc
      have hn' : n ≠ 10000 := by
        rintro rfl
        exact hlimit ⟨rfl, hcount, t, vs, rfl, x, hx, fun he =>
          hne (Except.ok.inj (he.symm.trans hd))⟩
      simp only [hlen, hcount, Option.getD_some] at hle
      omega
    have h := produced_setVariable H.zlib ht htype htyped hfew hlen
    obtain ⟨c', hc', room, hroom⟩ :=
      readsDeep_of_restorable h (restorable_setVariable H ht h) db hd
    obtain rfl : c' = c := Except.ok.inj (hc'.symm.trans hc)
    have hfresh : (freshOf descriptor t e).descriptor.varType = .simple t := htype
    rw [readVariable_depth H db ht.ne_creatable hfresh depth room]
    exact hroom room (Nat.le_refl _)

end

/-- A fresh variable of a simple type. -/
def Fresh (b : Variable) : Prop :=
  b.dirty = false ∧ b.descriptor.WellTyped ∧ ∃ t e, b.descriptor.varType = .simple t ∧
    t.defaultElem b.descriptor.default = .ok e ∧ b = freshOf b.descriptor t e

lemma IsDefaultOf.fresh (h : IsDefaultOf s d) (htyped : ∀ var ∈ d.vars, var.WellTyped)
    (hv : v ∈ s.simpleVars) : Fresh v :=
  ⟨h.clean v (by simp [hv]), htyped _ (h.simple v hv).1, (h.simple v hv).2⟩

lemma SetFrom.cases_fresh (h : SetFrom b v) (hb : Fresh b) :
    v = b ∨ ∃ t e vs, Settable t ∧ b.descriptor.varType = .simple t ∧
      t.defaultElem b.descriptor.default = .ok e ∧ b = freshOf b.descriptor t e ∧
      vs.length = b.descriptor.count.getD 0 ∧ v = setVariable b.descriptor t vs := by
  obtain ⟨-, -, t, e, htype, he, hfresh⟩ := hb
  rcases h with rfl | ⟨t', us, xs, ht, hus, hlen, rfl⟩
  · exact .inl rfl
  · rw [hfresh] at hus
    cases hus
    refine .inr ⟨t, e, xs, ht, htype, he, hfresh, by simpa using hlen, ?_⟩
    rw [hfresh]
    rfl

lemma turns_simple (H : Host) (db : DescriptorDb X) (depth : ℕ) (hb : ∀ b ∈ bs, Fresh b)
    (hv : ∀ v ∈ vs, ¬ AtLimit v) (h : List.Forall₂ SetFrom bs vs) :
    Turns (readVariable H db depth) (varEntries H.zlib vs) bs vs := by
  induction h with
  | nil => exact .nil
  | @cons b v bs vs hbv _ ih =>
    have hfresh := hb b (by simp)
    have hlimit := hv v (by simp)
    have hrest := ih (fun b' hb' => hb b' (by simp [hb'])) fun v' hv' => hv v' (by simp [hv'])
    rcases hbv.cases_fresh hfresh with rfl | ⟨t, e, xs, ht, htype, he, hbase, hlen, rfl⟩
    · rw [varEntries, hfresh.1]
      exact .clean _ _ hrest
    · refine .dirty (fun c hc => ?_) hrest
      rw [hbase]
      exact reads_setVariable H db depth ht htype hfresh.2.1 hlen hlimit he hc

lemma eq_of_setFrom (hb : ∀ b ∈ bs, ∃ states, b.values = .stateDesc states)
    (h : List.Forall₂ SetFrom bs vs) : vs = bs := by
  induction h with
  | nil => rfl
  | cons hbv _ ih =>
    rw [ih fun b' hb' => hb b' (by simp [hb'])]
    rcases hbv with rfl | ⟨t, us, xs, -, hus, -⟩
    · rfl
    · obtain ⟨states, hs⟩ := hb _ (List.mem_cons_self ..)
      rw [hs] at hus
      cases hus

lemma turns_clean {read : Variable → Reader Variable} (Z : Zlib) (hlen : vs.length = bs.length)
    (h : ∀ v ∈ vs, v.dirty = false) :
    Turns read (varEntries Z vs) bs bs := by
  induction vs generalizing bs with
  | nil =>
    obtain rfl := List.length_eq_zero_iff.1 hlen.symm
    exact .nil
  | cons v vs ih =>
    cases bs with
    | nil => cases hlen
    | cons b bs =>
      rw [varEntries, h v (by simp)]
      exact .clean _ _ (ih (by simpa using hlen) fun w hw => h w (by simp [hw]))

lemma exists_depth (h : State.fromDefaults db depth d = .ok s) : ∃ k, depth = k + 1 := by
  cases depth with
  | zero => cases h
  | succ k => exact ⟨k, rfl⟩

lemma reads_setState {H : Host} (hparsed : db.Parsed) (hholds : db.Holds d) {s₀ : State}
    (hs₀ : State.fromDefaults db depth d = .ok s₀) (hset : SetState s₀ s)
    (hlimit : ∀ v ∈ s.simpleVars, ¬ AtLimit v) {b : Bytes} (hb : s.toBlob H.zlib = .ok b) :
    Reads (State.readBlob H db depth) b s := by
  have hwf := hparsed d hholds
  have hdefault := State.fromDefaults_eq_ok hs₀
  have hdesc : s.descriptor = d := hset.descriptor.trans hdefault.descriptor
  obtain ⟨depth, rfl⟩ := exists_depth hs₀
  have hsimple :=
    turns_simple H db depth (fun v hv => hdefault.fresh hwf.typed hv) hlimit hset.simple
  have hsd : s.statedescVars = s₀.statedescVars := eq_of_setFrom hdefault.statedesc hset.statedesc
  have hclean : Turns (readVariable H db depth) (varEntries H.zlib s.statedescVars)
      s₀.statedescVars s.statedescVars := by
    rw [hsd]
    exact turns_clean H.zlib rfl fun v hv => hdefault.clean v (by simp [hv])
  have hread : Reads (State.readBlob H db (depth + 1)) b _ :=
    reads_blob (by rwa [hdesc]) (by rw [hdesc]; exact hwf.ascii) (by rwa [hdesc])
      (by rw [hset.object, hdefault.object]; simp) hsimple hclean hb
  have heta : (⟨s.descriptor, s.simpleVars, s.statedescVars, s.object, s.flags⟩ : State) = s := by
    cases s
    rfl
  rwa [heta] at hread

/-- **Saving and loading a state that was set.** For a database built from files the parser
accepts, and a descriptor whose variables have few enough elements: whatever setters are
called on a state made of its defaults, successful or not, if the state can be saved then
loading the blob consumes all of it and gives the state back. -/
theorem state_blob_round_trip {X : Crates} (H : Host) {files : List Bytes} {db : DescriptorDb X}
    (hdb : DescriptorDb.empty.fromFiles files = .ok db) {name : String} {version : UInt16}
    {d : StateDescriptor} (hd : db.getVersion name version = some d)
    (hfew : ∀ var ∈ d.vars, ∀ n ∈ var.count, n < 10000) {depth : ℕ} {s₀ : State}
    (hs₀ : State.fromDefaults db depth d = .ok s₀) (calls : List SetCall) {b : Bytes}
    (hb : (calls.foldl State.set s₀).toBlob H.zlib = .ok b) :
    (State.readBlob H db depth).run b = .ok (calls.foldl State.set s₀, []) ∧
      State.fromBlob H db depth b = .ok (calls.foldl State.set s₀) := by
  have hset := (SetState.refl s₀).setAll calls
  have hlimit : ∀ v ∈ (calls.foldl State.set s₀).simpleVars, ¬ AtLimit v := by
    rintro v hv ⟨-, hcount, -⟩
    have hmem := hset.descriptor_mem (State.fromDefaults_eq_ok hs₀) hv
    exact absurd (hfew _ hmem _ hcount) (by omega)
  have hrun := reads_setState (DescriptorDb.Parsed.empty.fromFiles hdb)
    (DescriptorDb.holds_of_getVersion hd) hs₀ hset hlimit hb []
  rw [List.append_nil] at hrun
  exact ⟨hrun, by rw [State.fromBlob, hrun]; rfl⟩

/-! ### The descriptors of the repository's own tests, cut down to three variables -/

def testDescriptors : Bytes := String.toUTF8
  "STATEDESC Test \x7b VERSION 1 VAR BOOL bTestVar1[1] DEFAULT=0 VAR INT iTestVar3[1] \x7d
  STATEDESC Test \x7b VERSION 2 VAR BOOL bTestVar1[1] DEFAULT=0 VAR INT iTestVar3[1]
    VAR BYTE bTestVar5[1] DEFAULT=50 \x7d" |>.data.toList

def testVars : List VarDescriptor :=
  [⟨"bTestVar1", .simple .bool, some 1, some (.bool false)⟩,
    ⟨"iTestVar3", .simple .int, some 1, none⟩]

def testV1 : StateDescriptor := ⟨"Test", 1, testVars⟩

def testV2 : StateDescriptor :=
  ⟨"Test", 2, testVars ++ [⟨"bTestVar5", .simple .byte, some 1, some (.byte 50)⟩]⟩

def testDb : DescriptorDb Crates.plain := DescriptorDb.empty.mergeDescriptors [testV1, testV2]

lemma fromFiles_testDescriptors : DescriptorDb.empty.fromFiles [testDescriptors] = .ok testDb := by
  have hparse : Parser.parse testDescriptors = .ok [testV1, testV2] := by decide +kernel
  rw [DescriptorDb.fromFiles, hparse]
  rfl

def testDefaults : State :=
  ⟨testV1, [freshOf testVars[0] .bool false, freshOf testVars[1] .int 0], [], none, 0⟩

/-- A save and a load with one variable out of two. -/
theorem testState_blob_round_trip :
    State.fromBlob plainHost testDb 1 [0x00, 0x80, 0x04, 0xF0, 0xAB, 0x9A, 0x8C, 0x8B, 0x01, 0x00,
        0x00, 0x00, 0x06, 0x01, 0x01, 0x00, 0x10, 0x06, 0x00, 0x00, 0x00, 0x00] =
      .ok ([.setInt "iTestVar3" 0 6].foldl State.set testDefaults) := by
  have hd : testDb.getVersion "Test" 1 = some testV1 := rfl
  have hs₀ : State.fromDefaults testDb 1 testV1 = .ok testDefaults := rfl
  exact (state_blob_round_trip plainHost fromFiles_testDescriptors hd (by decide) hs₀ _ rfl).2

end Moulars.Sdl
