import Moulars.Lib.InPlace
import Moulars.Sdl.Upgrade

/-!
What every SDL state looks like, however it came about: its variables are those of its
descriptor, their values are of the types and counts the descriptor gives, and the states
inside are again of that kind and of the latest version.

States are read in place, so a read that fails has changed some of the variables.
-/

namespace Moulars.Sdl

open Lib Lib.Wire Lib.InPlace Lib.Fallible Lib.Keyed
open Hashes Plasma

variable {X : Crates}

/-! ### Reading in place -/

/-- `Variable::read_simple` on the variable itself. -/
def Variable.readSimpleAt (H : Host) (depth : ℕ) (t : SimpleType) : ReaderAt Variable Unit := do
  let readFlags ← ReaderAt.lift Reader.u8
  let v ← ReaderAt.get
  let timestamp ← ReaderAt.lift (readTimestamp H readFlags v.timestamp)
  ReaderAt.modify fun v => { v with timestamp }
  let values ← ReaderAt.lift (Reader.optional (readFlags &&& sameAsDefault = 0)
    (readValues H depth v.descriptor t) v.values)
  ReaderAt.modify fun v => { v with values }

/-- The value of a variable. The states of a variable are read into a list of their own, which
is assigned at the end. -/
def Variable.readValueAt (H : Host) (db : DescriptorDb X) (depth : ℕ)
    (read : State → Reader State) : ReaderAt Variable Unit := do
  let v ← ReaderAt.get
  match v.descriptor.varType with
  | .stateDesc name => match db.getLatest name with
    | some statedesc => do
      let v ← ReaderAt.lift (v.readStatedesc (State.fromDefaults db depth statedesc) read)
      ReaderAt.modify fun _ => v
    | none => ReaderAt.fail (.error s!"No such descriptor {name}")
  | .simple t => Variable.readSimpleAt H depth t

def Variable.readAt (H : Host) (db : DescriptorDb X) (depth : ℕ) (read : State → Reader State) :
    ReaderAt Variable Unit := do
  let notificationHint ← ReaderAt.lift readNotificationHint
  ReaderAt.modify fun v => { v with notificationHint }
  Variable.readValueAt H db depth read
  ReaderAt.modify fun v => { v with dirty := true }

def State.readVarsAt (m : ReaderAt Variable Unit) : ReaderAt State Unit := do
  let s ← ReaderAt.get
  let maxHint := s.descriptor.vars.length
  let badIndex := fun idx => Fault.error s!"Invalid variable index {idx}"
  ReaderAt.within State.simpleVars (fun simpleVars s => { s with simpleVars })
    (ReaderAt.readDirtyAt (readCompressedSize maxHint) badIndex m)
  ReaderAt.within State.statedescVars (fun statedescVars s => { s with statedescVars })
    (ReaderAt.readDirtyAt (readCompressedSize maxHint) badIndex m)

/-- `State::read` on the state itself. -/
def State.readAt (H : Host) (db : DescriptorDb X) : ℕ → ReaderAt State Unit
  | 0 => ReaderAt.fail stackOverflow
  | depth + 1 => do
    let flags ← ReaderAt.lift Reader.u16
    ReaderAt.modify fun s => { s with flags }
    let version ← ReaderAt.lift Reader.u8
    if version ≠ ioVersion then
      ReaderAt.fail (.error s!"Unexpected IO version {version}")
    else State.readVarsAt (Variable.readAt H db depth (State.read H db depth))

/-- What a read leaves of the state, whether it succeeds or not. -/
def State.leftByRead (H : Host) (db : DescriptorDb X) (depth : ℕ) (s : State)
    (bs : Bytes) : State :=
  ((State.readAt H db depth).run s bs).1

section Agreement

variable (H : Host) (db : DescriptorDb X) (depth : ℕ) (read : State → Reader State)

lemma agrees_readSimpleAt (t : SimpleType) :
    ReaderAt.Agrees (Variable.readSimpleAt H depth t) fun v => v.readSimple H depth t := by
  intro v
  simp only [Variable.readSimpleAt, Var.readSimple, ReaderAt.toReader_bind, ReaderAt.toReader_lift,
    ReaderAt.toReader_get, ReaderAt.toReader_modify, bind_assoc, pure_bind]

lemma agrees_readValueAt :
    ReaderAt.Agrees (Variable.readValueAt H db depth read)
      fun v => v.readValue H db depth read := by
  intro v
  simp only [Variable.readValueAt, Variable.readValue, ReaderAt.toReader_bind,
    ReaderAt.toReader_get, pure_bind]
  cases ht : v.descriptor.varType with
  | simple t => exact agrees_readSimpleAt H depth t v
  | stateDesc name =>
    cases hl : db.getLatest name with
    | none => simp only [hl]; rfl
    | some e =>
      simp only [hl, ReaderAt.toReader_bind, ReaderAt.toReader_lift, ReaderAt.toReader_modify,
        bind_assoc, pure_bind]

lemma Variable.readValue_hint (v : Variable) (notificationHint : String) :
    Variable.readValue H db depth read { v with notificationHint } =
      v.readValue H db depth read >>= fun v => pure { v with notificationHint } := by
  simp only [Variable.readValue]
  cases ht : v.descriptor.varType with
  | simple t => simp only [Var.readSimple, bind_assoc, pure_bind]
  | stateDesc name =>
    cases hl : db.getLatest name with
    | none => simp only [hl]; rfl
    | some e => simp only [hl, Variable.readStatedesc, bind_assoc, pure_bind]

lemma agrees_readAt :
    ReaderAt.Agrees (Variable.readAt H db depth read) fun v => v.read H db depth read := by
  intro v
  simp only [Variable.readAt, Variable.read, ReaderAt.toReader_bind, ReaderAt.toReader_lift,
    ReaderAt.toReader_modify, bind_assoc, pure_bind, agrees_readValueAt H db depth read _,
    Variable.readValue_hint]

lemma agrees_readVarsAt {m : ReaderAt Variable Unit} {r : Variable → Reader Variable}
    (h : ReaderAt.Agrees m r) : ReaderAt.Agrees (State.readVarsAt m) (State.readVars r) := by
  intro s
  simp only [State.readVarsAt, State.readVars, ReaderAt.toReader_bind, ReaderAt.toReader_get,
    ReaderAt.toReader_within, bind_assoc, pure_bind, ReaderAt.agrees_readDirtyAt _ _ h _]

/-- **Where it succeeds, reading in place is reading.** -/
lemma State.agrees_readAt : ReaderAt.Agrees (State.readAt H db depth) (State.read H db depth) := by
  intro s
  cases depth with
  | zero => rfl
  | succ depth =>
    simp only [State.readAt, State.read, ReaderAt.toReader_bind, ReaderAt.toReader_lift,
      ReaderAt.toReader_modify, bind_assoc, pure_bind]
    refine congrArg _ (funext fun flags => congrArg _ (funext fun version => ?_))
    split
    · rfl
    · exact agrees_readVarsAt (Sdl.agrees_readAt H db depth _) { s with flags }

end Agreement

/-! ### The shape of a state -/

def VarType.isStateDesc : VarType → Bool
  | .stateDesc _ => true
  | .simple _ => false

/-- The values are of the descriptor's type, and as many as it says. -/
def Var.Shaped {σ : Type} (v : Var σ) : Prop :=
  match v.descriptor.varType, v.values with
  | .simple t, .simple t' values => t' = t ∧ ∀ n ∈ v.descriptor.count, values.length = n
  | .stateDesc _, .stateDesc states => ∀ n ∈ v.descriptor.count, states.length = n
  | _, _ => False

/-- The variables are those of the descriptor, in its order and by kind; their values are
shaped, and the states inside are of the latest version and well formed themselves. -/
inductive State.WellFormed (db : DescriptorDb X) : State → Prop
  | intro {s : State}
      (simple : s.simpleVars.map Var.descriptor =
        s.descriptor.vars.filter fun var => !var.varType.isStateDesc)
      (statedesc : s.statedescVars.map Var.descriptor =
        s.descriptor.vars.filter fun var => var.varType.isStateDesc)
      (shaped : ∀ v ∈ s.simpleVars ++ s.statedescVars, v.Shaped)
      (latest : ∀ v ∈ s.simpleVars ++ s.statedescVars, ∀ name states,
        v.descriptor.varType = .stateDesc name → v.values = .stateDesc states →
        ∀ t ∈ states, db.getLatest name = some t.descriptor)
      (nested : ∀ v ∈ s.simpleVars ++ s.statedescVars, ∀ states,
        v.values = .stateDesc states → ∀ t ∈ states, State.WellFormed db t) :
      State.WellFormed db s

/-- A variable of a well-formed state. -/
structure Var.WellFormed (db : DescriptorDb X) (v : Variable) : Prop where
  shaped : v.Shaped
  latest : ∀ name states, v.descriptor.varType = .stateDesc name → v.values = .stateDesc states →
    ∀ t ∈ states, db.getLatest name = some t.descriptor
  nested : ∀ states, v.values = .stateDesc states → ∀ t ∈ states, t.WellFormed db

section WellFormed

variable {db : DescriptorDb X}

variable {s : State} {v : Variable} {depth : ℕ}

lemma State.wellFormed_iff : s.WellFormed db ↔
    (s.simpleVars.map Var.descriptor =
        s.descriptor.vars.filter (fun var => !var.varType.isStateDesc) ∧
      ∀ v ∈ s.simpleVars, v.WellFormed db) ∧
    s.statedescVars.map Var.descriptor =
        s.descriptor.vars.filter (fun var => var.varType.isStateDesc) ∧
      ∀ v ∈ s.statedescVars, v.WellFormed db := by
  constructor
  · rintro ⟨hsimple, hstatedesc, hshaped, hlatest, hnested⟩
    have hall : ∀ v ∈ s.simpleVars ++ s.statedescVars, v.WellFormed db := fun v hv =>
      ⟨hshaped v hv, hlatest v hv, hnested v hv⟩
    exact ⟨⟨hsimple, fun v hv => hall v (List.mem_append_left _ hv)⟩, hstatedesc,
      fun v hv => hall v (List.mem_append_right _ hv)⟩
  · rintro ⟨⟨hsimple, hs⟩, hstatedesc, hd⟩
    have hall : ∀ v ∈ s.simpleVars ++ s.statedescVars, v.WellFormed db := fun v hv =>
      (List.mem_append.1 hv).elim (hs v) (hd v)
    exact ⟨hsimple, hstatedesc, fun v hv => (hall v hv).shaped, fun v hv => (hall v hv).latest,
      fun v hv => (hall v hv).nested⟩

lemma State.WellFormed.frame (h : s.WellFormed db) (object : Option Uoid) (flags : UInt16) :
    State.WellFormed db { s with object, flags } := by
  have hs := State.wellFormed_iff.1 h
  exact State.wellFormed_iff.2 hs

lemma Var.WellFormed.congr {w : Variable} (h : v.WellFormed db) (hd : w.descriptor = v.descriptor)
    (hv : w.values = v.values) : w.WellFormed db := by
  obtain ⟨hshaped, hlatest, hnested⟩ := h
  rw [Var.Shaped, ← hd, ← hv] at hshaped
  rw [← hd, ← hv] at hlatest
  rw [← hv] at hnested
  exact ⟨hshaped, hlatest, hnested⟩

lemma Var.wellFormed_simple {t : SimpleType} {values : List t.Elem}
    (ht : v.descriptor.varType = .simple t) (hv : v.values = .simple t values)
    (hcount : ∀ n ∈ v.descriptor.count, values.length = n) : v.WellFormed db := by
  refine ⟨?_, fun name states hname => ?_, fun states hstates => ?_⟩
  · rw [Var.Shaped, ht, hv]
    exact ⟨rfl, hcount⟩
  · rw [ht] at hname
    cases hname
  · rw [hv] at hstates
    cases hstates

lemma Var.wellFormed_stateDesc {name : String} {states : List State}
    (ht : v.descriptor.varType = .stateDesc name) (hv : v.values = .stateDesc states)
    (hcount : ∀ n ∈ v.descriptor.count, states.length = n)
    (hstates : ∀ t ∈ states, db.getLatest name = some t.descriptor ∧ t.WellFormed db) :
    v.WellFormed db := by
  refine ⟨?_, fun name' states' hname hvalues t ht' => ?_, fun states' hvalues t ht' => ?_⟩
  · rw [Var.Shaped, ht, hv]
    exact hcount
  · rw [ht] at hname
    rw [hv] at hvalues
    cases hname
    cases hvalues
    exact (hstates t ht').1
  · rw [hv] at hvalues
    cases hvalues
    exact (hstates t ht').2

/-! ### Defaults -/

lemma Variable.wellFormed_fromDefaults {build : StateDescriptor → Except Fault State}
    (hbuild : ∀ d s, build d = .ok s → s.descriptor = d ∧ s.WellFormed db)
    {descriptor : VarDescriptor} (h : Variable.fromDefaults db build descriptor = .ok v) :
    v.descriptor = descriptor ∧ v.WellFormed db := by
  obtain ⟨-, values, rfl, hvalues⟩ := Variable.fromDefaults_iff.1 h
  refine ⟨rfl, ?_⟩
  have hlength {n : ℕ} (hn : n ∈ descriptor.count) : descriptor.count.getD 0 = n := by
    rw [Option.mem_def.1 hn]
    rfl
  cases ht : descriptor.varType with
  | simple t =>
    rw [ht] at hvalues
    obtain ⟨e, -, rfl⟩ := hvalues
    exact Var.wellFormed_simple ht rfl fun n hn => by rw [List.length_replicate, hlength hn]
  | stateDesc name =>
    rw [ht] at hvalues
    obtain ⟨d, states, hd, hstates, rfl⟩ := hvalues
    obtain ⟨hlen, hall⟩ := mem_collect hstates
    refine Var.wellFormed_stateDesc ht rfl (fun n hn => by rw [hlen, hlength hn]) fun t ht => ?_
    obtain ⟨hdesc, hwf⟩ := hbuild d t (hall t ht)
    exact ⟨hdesc ▸ hd, hwf⟩

lemma State.wellFormed_fromDefaults {d : StateDescriptor}
    (h : State.fromDefaults db depth d = .ok s) : s.descriptor = d ∧ s.WellFormed db := by
  induction depth generalizing d s with
  | zero => cases h
  | succ depth ih =>
    obtain ⟨vars, hvars, rfl⟩ := map_eq_ok.1 h
    have hmap : vars.map Var.descriptor = d.vars := by
      have hall := (mapM_eq_ok.1 hvars).imp fun _ _ hv =>
        (Variable.wellFormed_fromDefaults (fun d s => ih) hv).1.symm
      exact (List.forall₂_eq_eq_eq ▸ List.forall₂_map_right_iff.2 hall).symm
    have hwf : ∀ v ∈ vars, v.WellFormed db := by
      intro v hv
      obtain ⟨var, -, hvar⟩ := exists_of_mem_mapM hvars hv
      exact (Variable.wellFormed_fromDefaults (fun d s => ih) hvar).2
    refine ⟨rfl, State.wellFormed_iff.2 ⟨⟨?_, fun v hv => ?_⟩, ?_, fun v hv => ?_⟩⟩
    · rw [← hmap, List.filter_map]
      rfl
    · exact hwf v (List.mem_filter.1 hv).1
    · rw [← hmap, List.filter_map]
      rfl
    · exact hwf v (List.mem_filter.1 hv).1

/-! ### Reads -/

lemma gives_varCount (descriptor : VarDescriptor) :
    ReaderAt.Gives (readVarCount descriptor) fun n => ∀ m ∈ descriptor.count, n = m := by
  intro bs n rest h m hm
  rw [readVarCount, Option.mem_def.1 hm] at h
  simp only [checkVarCount] at h
  split at h
  · cases h
  · cases h
    rfl

lemma gives_readValues (H : Host) (depth : ℕ) (descriptor : VarDescriptor) (t : SimpleType) :
    ReaderAt.Gives (readValues (σ := State) H depth descriptor t) fun values =>
      ∃ vs, values = .simple t vs ∧ ∀ n ∈ descriptor.count, vs.length = n := by
  refine (gives_varCount descriptor).bind fun n hn => ?_
  refine ReaderAt.Gives.bind (Q := fun vs => vs.length = n) ?_ fun vs hvs => ?_
  · exact .of_yields ((yields_elem H.zlib depth t).times n) fun vs c h => h.1
  · exact .pure ⟨vs, rfl, fun m hm => hvs.trans (hn m hm)⟩

/-- What a read of a state is known to keep. -/
def KeepsShape (db : DescriptorDb X) (read : State → Reader State) : Prop :=
  ∀ s, s.WellFormed db → ReaderAt.Gives (read s) fun t =>
    t.descriptor = s.descriptor ∧ t.WellFormed db

section Reads

variable (H : Host) (depth : ℕ) {read : State → Reader State} (d : VarDescriptor)

lemma gives_readStatedesc (hread : KeepsShape db read) {name : String} {e : StateDescriptor}
    (he : db.getLatest name = some e) {v : Variable} (hd : v.descriptor = d)
    (hname : d.varType = .stateDesc name) :
    ReaderAt.Gives (v.readStatedesc (State.fromDefaults db depth e) read) fun w =>
      w.descriptor = d ∧ w.WellFormed db := by
  refine (ReaderAt.Gives.any _).bind fun _ _ => ?_
  refine (gives_varCount v.descriptor).bind fun n hn => ?_
  refine ReaderAt.Gives.bind (Q := fun states => states.length = n ∧
    ∀ t ∈ states, t.descriptor = e ∧ t.WellFormed db) ?_ fun states hstates => ?_
  · intro bs states rest h
    obtain ⟨states', hs, heq⟩ := map_eq_ok.1 h
    cases heq
    obtain ⟨hlen, hall⟩ := mem_collect hs
    exact ⟨hlen, fun t ht => State.wellFormed_fromDefaults (hall t ht)⟩
  · -- every state read replaces a well-formed one of the same descriptor
    have hone (k : StateDescriptor) : ReaderAt.Ensures (fun t => t.descriptor = k ∧ t.WellFormed db)
        (ReaderAt.replace read) fun _ => True :=
      .replace fun t ht => fun bs t' rest h => by
        obtain ⟨hdesc, hwf⟩ := hread t ht.2 bs t' rest h
        exact ⟨hdesc.trans ht.1, hwf⟩
    have hkeep := ReaderAt.Ensures.readDirtyAt hone (List.replicate n e)
      (readCompressedSize (v.descriptor.count.getD 0)) fun idx =>
      .error s!"Invalid value index {idx}"
    have hagree := ReaderAt.agrees_readDirtyAt (readCompressedSize (v.descriptor.count.getD 0))
      (fun idx => .error s!"Invalid value index {idx}") (ReaderAt.agrees_replace read)
    have hmap : states.map State.descriptor = List.replicate n e :=
      List.eq_replicate_iff.2 ⟨by simp [hstates.1], by
        rintro x hx
        obtain ⟨t, ht, rfl⟩ := List.mem_map.1 hx
        exact (hstates.2 t ht).1⟩
    refine (hagree.gives hkeep ⟨hmap, fun t ht => (hstates.2 t ht).2⟩).bind fun states' h => ?_
    obtain ⟨hmap', hwf⟩ := h
    refine .pure ⟨hd, Var.wellFormed_stateDesc (hd.symm ▸ hname) rfl
      (fun m hm => ?_) fun t ht => ?_⟩
    · have hlen := congrArg List.length hmap'
      rw [List.length_map, List.length_replicate] at hlen
      rw [hlen, hn m hm]
    · have ht' : t.descriptor ∈ states'.map State.descriptor := List.mem_map_of_mem ht
      rw [hmap'] at ht'
      exact ⟨(List.eq_of_mem_replicate ht').symm ▸ he, hwf t ht⟩

lemma Variable.ensures_readSimpleAt {t : SimpleType} (ht : d.varType = .simple t) :
    ReaderAt.Ensures (fun v : Variable => v.descriptor = d ∧ v.WellFormed db)
      (Variable.readSimpleAt H depth t) fun _ => True := by
  refine (ReaderAt.Ensures.lift (.any _)).bind fun flags _ => ?_
  refine ReaderAt.Ensures.get.bind fun v hv => ?_
  refine (ReaderAt.Ensures.lift (.any _)).bind fun timestamp _ => ?_
  refine (ReaderAt.Ensures.modify fun w hw => ⟨hw.1, hw.2.congr rfl rfl⟩).bind fun _ _ => ?_
  refine (ReaderAt.Ensures.lift (Q := fun values => ∃ vs, values = .simple t vs ∧
    ∀ n ∈ d.count, vs.length = n) ?_).bind fun values hvalues => ?_
  · rw [Reader.optional]
    split
    · exact hv.1 ▸ gives_readValues H depth v.descriptor t
    · refine .pure ?_
      have hshape := hv.2.shaped
      rw [Var.Shaped, hv.1, ht] at hshape
      split at hshape
      · rename_i t₁ t' vs heq hvs
        cases heq
        obtain ⟨rfl, hcount⟩ := hshape
        exact ⟨vs, hvs, hcount⟩
      · rename_i heq _
        cases heq
      · cases hshape
  · obtain ⟨vs, rfl, hcount⟩ := hvalues
    refine ReaderAt.Ensures.modify fun w hw => ⟨hw.1, ?_⟩
    exact Var.wellFormed_simple (hw.1.symm ▸ ht) rfl (hw.1.symm ▸ hcount)

lemma Variable.ensures_readAt (hread : KeepsShape db read) :
    ReaderAt.Ensures (fun v : Variable => v.descriptor = d ∧ v.WellFormed db)
      (Variable.readAt H db depth read) fun _ => True := by
  refine (ReaderAt.Ensures.lift (.any _)).bind fun hint _ => ?_
  refine (ReaderAt.Ensures.modify fun w hw => ⟨hw.1, hw.2.congr rfl rfl⟩).bind fun _ _ => ?_
  refine ReaderAt.Ensures.bind (Q := fun _ => True) ?_ fun _ _ =>
    .modify fun w hw => ⟨hw.1, hw.2.congr rfl rfl⟩
  refine ReaderAt.Ensures.get.bind fun v hv => ?_
  obtain ⟨hd, hwf⟩ := hv
  cases ht : v.descriptor.varType with
  | simple t => exact Variable.ensures_readSimpleAt H depth d (hd ▸ ht)
  | stateDesc name =>
    cases hl : db.getLatest name with
    | none =>
      simp only [hl]
      exact .fail _
    | some e =>
      simp only [hl]
      exact (ReaderAt.Ensures.lift (gives_readStatedesc depth d hread hl hd (hd ▸ ht))).bind
        fun w hw => .modify fun _ _ => hw

end Reads

/-- Reading a state keeps its shape, also where it stops halfway. -/
lemma State.ensures_readAt (H : Host) (depth : ℕ) (d : StateDescriptor) :
    ReaderAt.Ensures (fun s => s.descriptor = d ∧ s.WellFormed db) (State.readAt H db depth)
      fun _ => True := by
  -- the states inside are read with less depth, and then all at once
  induction depth generalizing d with
  | zero => exact .fail _
  | succ depth ih =>
    have hread : KeepsShape db (State.read H db depth) := fun s hs =>
      (State.agrees_readAt H db depth).gives (ih s.descriptor) ⟨rfl, hs⟩
    refine (ReaderAt.Ensures.lift (.any _)).bind fun flags _ => ?_
    refine (ReaderAt.Ensures.modify fun s hs => ⟨hs.1, hs.2.frame s.object flags⟩).bind
      fun _ _ => ?_
    refine (ReaderAt.Ensures.lift (.any _)).bind fun version _ => ?_
    split
    · exact .fail _
    refine ReaderAt.Ensures.get.bind fun s hs => ?_
    have hkeep (ks : List VarDescriptor) := ReaderAt.Ensures.readDirtyAt
      (fun k => Variable.ensures_readAt H depth k hread) ks
      (readCompressedSize s.descriptor.vars.length)
      fun idx => Fault.error s!"Invalid variable index {idx}"
    refine ReaderAt.Ensures.bind (Q := fun _ => True)
      (.within (fun s hs => ?_) (fun s vs hs hvs => ?_)
      (hkeep (d.vars.filter fun var => !var.varType.isStateDesc))) fun _ _ =>
      .within (fun s hs => ?_) (fun s vs hs hvs => ?_)
        (hkeep (d.vars.filter fun var => var.varType.isStateDesc))
    · exact hs.1 ▸ (State.wellFormed_iff.1 hs.2).1
    · exact ⟨hs.1, State.wellFormed_iff.2 ⟨hs.1.symm ▸ hvs, (State.wellFormed_iff.1 hs.2).2⟩⟩
    · exact hs.1 ▸ (State.wellFormed_iff.1 hs.2).2
    · exact ⟨hs.1, State.wellFormed_iff.2 ⟨(State.wellFormed_iff.1 hs.2).1, hs.1.symm ▸ hvs⟩⟩

/-! ### Setters and upgrades -/

lemma State.WellFormed.modifyVar {s s' : State} (h : s.WellFormed db) {name : String}
    {f : Variable → Except Fault Variable}
    (hf : ∀ v v', v.WellFormed db → f v = .ok v' → v'.descriptor = v.descriptor ∧ v'.WellFormed db)
    (hs' : s.modifyVar name f = .ok s') : s'.descriptor = s.descriptor ∧ s'.WellFormed db := by
  have hlist {ks : List VarDescriptor} {vs vs' : List Variable}
      (hvs : vs.map Var.descriptor = ks ∧ ∀ v ∈ vs, v.WellFormed db)
      (hm : modifyFirst Var.name name f vs = .ok (some vs')) :
      vs'.map Var.descriptor = ks ∧ ∀ v ∈ vs', v.WellFormed db := by
    obtain ⟨before, v, v', after, rfl, hv, rfl⟩ := modifyFirst_eq_some hm
    obtain ⟨hmap, hall⟩ := hvs
    obtain ⟨hdesc, hwf⟩ := hf v v' (hall v (by simp)) hv
    refine ⟨by simpa [hdesc] using hmap, fun w hw => ?_⟩
    rcases List.mem_append.1 hw with hw | hw
    · exact hall w (by simp [hw])
    · rcases List.mem_cons.1 hw with rfl | hw
      · exact hwf
      · exact hall w (by simp [hw])
  obtain ⟨hsimple, hstatedesc⟩ := State.wellFormed_iff.1 h
  obtain ⟨o, ho, hs'⟩ := bind_eq_ok.1 hs'
  cases o with
  | some simpleVars =>
    cases hs'
    exact ⟨rfl, State.wellFormed_iff.2 ⟨hlist hsimple ho, hstatedesc⟩⟩
  | none =>
    obtain ⟨o, ho, heq⟩ := map_eq_ok.1 hs'
    cases o with
    | some statedescVars =>
      cases heq
      exact ⟨rfl, State.wellFormed_iff.2 ⟨hsimple, hlist hstatedesc ho⟩⟩
    | none =>
      cases heq
      exact ⟨rfl, h⟩

lemma Var.WellFormed.setElem {v' : Variable} (h : v.WellFormed db) {t : SimpleType}
    {typeName : String} {index : ℕ} {value : t.Elem}
    (hset : v.setElem t typeName index value = .ok v') :
    v'.descriptor = v.descriptor ∧ v'.WellFormed db := by
  obtain ⟨us, hus, rfl⟩ := Var.setElem_eq_ok hset
  refine ⟨rfl, ?_⟩
  have hshape := h.shaped
  rw [Var.Shaped, hus] at hshape
  split at hshape
  · rename_i t₁ t' vs ht heq
    cases heq
    obtain ⟨rfl, hcount⟩ := hshape
    exact Var.wellFormed_simple ht rfl fun n hn => by rw [List.length_set, hcount n hn]
  · rename_i heq
    cases heq
  · cases hshape

lemma State.WellFormed.set (h : s.WellFormed db) (call : SetCall) :
    (s.set call).WellFormed db := by
  rw [State.set]
  split
  · rename_i s' hs'
    refine (h.modifyVar (fun v v' hv hrun => ?_) hs').2
    cases call with
    | setBool name index value => exact hv.setElem hrun
    | setByte name index value => exact hv.setElem hrun
    | setInt name index value => exact hv.setElem hrun
  · exact h

lemma Var.WellFormed.upgradeFrom {old new : Variable} (hold : old.WellFormed db)
    (hnew : new.WellFormed db) (h : Variable.upgradeFrom (State.upgrade db depth) old new = .ok v) :
    v.descriptor = new.descriptor ∧ v.WellFormed db := by
  obtain ⟨same, -, h⟩ := bind_eq_ok.1 h
  split at h
  · cases h
    exact ⟨rfl, hnew⟩
  · rename_i hsame
    simp only [not_or, not_not] at hsame
    obtain ⟨-, htype, hcount⟩ := hsame
    -- the new descriptor has the type and the count of the old one, and the values fit both
    have hcopy : Var.WellFormed db { new with values := old.values } := by
      obtain ⟨hshaped, hlatest, hnested⟩ := hold
      refine ⟨?_, ?_, hnested⟩
      · rw [Var.Shaped, ← htype, ← hcount] at hshaped
        exact hshaped
      · rw [← htype] at hlatest
        exact hlatest
    split at h
    · rename_i t values hvalues
      cases h
      exact ⟨rfl, hvalues ▸ hcopy⟩
    · rename_i states hvalues
      obtain ⟨states', hstates, rfl⟩ := map_eq_ok.1 h
      refine ⟨rfl, ?_⟩
      have heq : states' = states := by
        refine eq_of_mapM_eq_ok hstates fun t ht t' ht' => ?_
        obtain ⟨o, ho, rfl⟩ := map_eq_ok.1 ht'
        have hname : ∃ name, old.descriptor.varType = .stateDesc name := by
          have hshaped := hold.shaped
          rw [Var.Shaped, hvalues] at hshaped
          cases hold' : old.descriptor.varType with
          | simple t => simp [hold'] at hshaped
          | stateDesc name => exact ⟨name, rfl⟩
        obtain ⟨name, hname⟩ := hname
        rw [State.upgrade_latest (hold.latest name states hname hvalues t ht) ho]
        rfl
      rw [heq, ← hvalues]
      exact hcopy

lemma State.WellFormed.upgrade {t : State} (h : s.WellFormed db)
    (ht : State.upgrade db depth s = .ok (some t)) : t.WellFormed db := by
  cases depth with
  | zero => cases ht
  | succ depth =>
    rw [State.upgrade] at ht
    split at ht
    · cases ht
    · split at ht
      · cases ht
      · obtain ⟨fresh, hfresh, ht⟩ := bind_eq_ok.1 ht
        obtain ⟨t', ht', heq⟩ := map_eq_ok.1 ht
        cases heq
        refine foldlM_induct (I := fun u => State.WellFormed db u)
          (State.wellFormed_fromDefaults hfresh).2 (fun u old u' hold hu hu' => ?_) ht'
        obtain ⟨⟨-, hsimple⟩, -, hstatedesc⟩ := State.wellFormed_iff.1 h
        have hwf : old.WellFormed db := (List.mem_append.1 hold).elim (hsimple old) (hstatedesc old)
        exact (hu.modifyVar (fun v v' hv hup => hwf.upgradeFrom hv hup) hu').2

lemma State.wellFormed_fromBlob {H : Host} {blob : Bytes}
    (h : State.fromBlob H db depth blob = .ok s) : s.WellFormed db := by
  obtain ⟨⟨s', rest⟩, hrun, rfl⟩ := map_eq_ok.1 h
  have hgives : ReaderAt.Gives (State.readBlob H db depth) fun s => s.WellFormed db := by
    refine (ReaderAt.Gives.any _).bind fun flags _ => ?_
    split
    · exact nofun
    refine (ReaderAt.Gives.any _).bind fun name _ => (ReaderAt.Gives.any _).bind fun version _ => ?_
    split
    · rename_i d hd
      refine ReaderAt.Gives.bind (Q := fun s => s.WellFormed db) (fun bs s rest hs => ?_)
        fun s hs => (ReaderAt.Gives.any _).bind fun object _ => ?_
      · obtain ⟨s', hs', heq⟩ := map_eq_ok.1 hs
        cases heq
        exact (State.wellFormed_fromDefaults hs').2
      · have hread := (State.agrees_readAt H db depth).gives (s := { s with object })
          (State.ensures_readAt H depth s.descriptor) ⟨rfl, hs.frame object s.flags⟩
        exact fun bs t rest ht => (hread bs t rest ht).2
    · exact nofun
  exact hgives blob s' rest hrun

/-! ### Every state -/

/-- The states that can come about over a database, step by step; the clock, the decompression
and the room on the stack may differ from step to step. -/
inductive State.Reachable (db : DescriptorDb X) : State → Prop
  | fromDefaults {depth : ℕ} {d : StateDescriptor} {s : State} :
      State.fromDefaults db depth d = .ok s → Reachable db s
  | fromBlob {H : Host} {depth : ℕ} {blob : Bytes} {s : State} :
      State.fromBlob H db depth blob = .ok s → Reachable db s
  | set {s : State} (call : SetCall) : Reachable db s → Reachable db (s.set call)
  | read {s : State} (H : Host) (depth : ℕ) (bs : Bytes) :
      Reachable db s → Reachable db (s.leftByRead H db depth bs)
  | upgrade {s t : State} {depth : ℕ} :
      Reachable db s → State.upgrade db depth s = .ok (some t) → Reachable db t

lemma State.Reachable.wellFormed (h : s.Reachable db) : s.WellFormed db := by
  induction h with
  | fromDefaults h => exact (State.wellFormed_fromDefaults h).2
  | fromBlob h => exact State.wellFormed_fromBlob h
  | set call _ ih => exact ih.set call
  | @read s H depth bs _ ih =>
    exact ((State.ensures_readAt H depth s.descriptor) s bs ⟨rfl, ih⟩).1.2
  | upgrade _ ht ih => exact ih.upgrade ht

/-- **Every state has the shape of its descriptor**, however it was made: from defaults, from a
blob, by setters, by upgrades, and by reads in place whether they succeed or stop halfway. -/
theorem reachable_wellFormed {s : State} (h : s.Reachable db) : s.WellFormed db := h.wellFormed

end WellFormed

/-- A read that stops in its second variable has changed the first. -/
theorem halfRead_wellFormed :
    (testDefaults.leftByRead plainHost testDb 1
        [0x00, 0x00, 0x06, 0x02, 0x00, 0x00, 0x01, 0x00, 0x00, 0x06]).simpleVars.map Var.dirty =
      [true, false] ∧
    State.WellFormed testDb (testDefaults.leftByRead plainHost testDb 1
      [0x00, 0x00, 0x06, 0x02, 0x00, 0x00, 0x01, 0x00, 0x00, 0x06]) := by
  have hs : State.fromDefaults testDb 1 testV1 = .ok testDefaults := rfl
  exact ⟨by decide +kernel, reachable_wellFormed (.read plainHost 1 _ (.fromDefaults hs))⟩

end Moulars.Sdl
