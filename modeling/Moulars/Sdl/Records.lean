import Moulars.Sdl.Migration

/-!
What a record makes of a variable.

A record that says that the variable is at its default has no values in it, and the variable
keeps those it had. All other records say everything about the values of the variable.
-/

namespace Moulars.Sdl

open Lib Lib.Wire Lib.Fallible
open Hashes Plasma

variable {X : Crates}

/-! ### Records -/

/-- The bytes begin with a record for a variable of the descriptor that ends after its flags and
its timestamp, as the values are said to be the defaults. -/
def Resets (H : Host) (descriptor : VarDescriptor) (bs : Bytes) : Prop :=
  descriptor.varType.isStateDesc = false ∧ ∃ hint bs₁ readFlags bs₂ timestamp bs₃,
    readNotificationHint.run bs = .ok (hint, bs₁) ∧ Reader.u8.run bs₁ = .ok (readFlags, bs₂) ∧
      readFlags &&& sameAsDefault ≠ 0 ∧
      (readTimestamp H readFlags UnifiedTime.default).run bs₂ = .ok (timestamp, bs₃)

/-- The record at the beginning of the bytes determines the values of the two variables. -/
structure Determined (H : Host) (db : DescriptorDb X) (depth : ℕ) (bs : Bytes)
    (v₁ v₂ : Variable) : Prop where
  alike : Alike (fun w₁ w₂ => w₁.values = w₂.values)
    (v₁.read H db depth (State.read H db depth)) (v₂.read H db depth (State.read H db depth)) bs
  default : Resets H v₁.descriptor bs → ∀ v ∈ [v₁, v₂], ∀ w rest,
    (v.read H db depth (State.read H db depth)).run bs = .ok (w, rest) → w.AtDefaults db

/-! ### Reading a variable twice -/

section Read

variable {H : Host} {db : DescriptorDb X} {depth : ℕ} {read : State → Reader State}
variable {v v₁ v₂ : Variable} {bs : Bytes}

lemma alike_readTimestamp (readFlags : UInt8) (time₁ time₂ : UnifiedTime) :
    Alike (fun _ _ => True) (readTimestamp H readFlags time₁) (readTimestamp H readFlags time₂)
      bs := by
  rw [readTimestamp, readTimestamp]
  split
  · exact (Alike.refl _ _).imp fun _ _ _ => trivial
  · split
    · exact (Alike.refl _ _).imp fun _ _ _ => trivial
    · exact .pure trivial

lemma alike_readStatedesc (build : Except Fault State) (hd : v₁.descriptor = v₂.descriptor) :
    Alike (fun w₁ w₂ => w₁.values = w₂.values) (v₁.readStatedesc build read)
      (v₂.readStatedesc build read) bs := by
  rw [Variable.readStatedesc, Variable.readStatedesc, hd]
  refine (Alike.refl _ _).bind fun _ _ _ _ _ => (Alike.refl _ _).bind ?_
  rintro n _ _ - rfl
  refine (Alike.refl _ _).bind ?_
  rintro values _ _ - rfl
  refine (Alike.refl _ _).bind ?_
  rintro states _ _ - rfl
  exact .pure rfl

lemma alike_readSimple (t : SimpleType) (hd : v₁.descriptor = v₂.descriptor)
    (hsame : ∀ readFlags bs₂ timestamp bs₃, Reader.u8.run bs = .ok (readFlags, bs₂) →
      readFlags &&& sameAsDefault ≠ 0 →
      (readTimestamp H readFlags UnifiedTime.default).run bs₂ = .ok (timestamp, bs₃) →
      v₁.values = v₂.values) :
    Alike (fun w₁ w₂ => w₁.values = w₂.values) (v₁.readSimple H depth t)
      (v₂.readSimple H depth t) bs := by
  rw [Var.readSimple, Var.readSimple, hd]
  refine (Alike.refl _ _).bind ?_
  rintro readFlags _ bs₂ hflags rfl
  refine (alike_readTimestamp readFlags _ _).bind fun time₁ time₂ bs₃ htime _ => ?_
  rw [Reader.optional, Reader.optional]
  split
  · refine (Alike.refl _ _).bind ?_
    rintro values _ _ - rfl
    exact .pure rfl
  · rename_i hdefault
    obtain ⟨time, htime, -⟩ :=
      (alike_readTimestamp readFlags _ UnifiedTime.default).exists_right htime
    exact .pure (hsame readFlags bs₂ time bs₃ hflags hdefault htime)

/-- **Two reads of one record** succeed alike, and differ only where the record has no values. -/
lemma alike_read (hd : v₁.descriptor = v₂.descriptor)
    (hsame : Resets H v₁.descriptor bs → v₁.values = v₂.values) :
    Alike (fun w₁ w₂ => w₁.values = w₂.values) (v₁.read H db depth read)
      (v₂.read H db depth read) bs := by
  refine (Alike.refl _ _).bind ?_
  rintro hint _ bs₁ hhint rfl
  refine Alike.bind (Q := fun w₁ w₂ => w₁.values = w₂.values) ?_
    fun w₁ w₂ _ _ hw => .pure hw
  rw [Variable.readValue, Variable.readValue, ← hd]
  split
  · split
    · exact alike_readStatedesc _ hd
    · exact .fail
  · rename_i t ht
    refine alike_readSimple t hd fun readFlags bs₂ timestamp bs₃ hflags hdefault htime => ?_
    exact hsame ⟨by rw [ht]; rfl, hint, bs₁, readFlags, bs₂, timestamp, bs₃, hhint, hflags,
      hdefault, htime⟩

lemma Var.AtDefaults.values_eq (hsimple : v₁.descriptor.varType.isStateDesc = false)
    (hd : v₁.descriptor = v₂.descriptor) (h₁ : v₁.AtDefaults db) (h₂ : v₂.AtDefaults db) :
    v₁.values = v₂.values := by
  obtain ⟨depth₁, fresh₁, hfresh₁, hv₁⟩ := h₁
  obtain ⟨depth₂, fresh₂, hfresh₂, hv₂⟩ := h₂
  rw [← hd] at hfresh₂
  have h₁ := (Variable.fromDefaults_eq_ok hfresh₁).2.2
  have h₂ := (Variable.fromDefaults_eq_ok hfresh₂).2.2
  cases ht : v₁.descriptor.varType with
  | stateDesc name => simp [ht, VarType.isStateDesc] at hsimple
  | simple t =>
    rw [ht] at h₁ h₂
    obtain ⟨e₁, he₁, rfl⟩ := h₁
    obtain ⟨e₂, he₂, rfl⟩ := h₂
    obtain rfl : e₁ = e₂ := Except.ok.inj (he₁.symm.trans he₂)
    rw [hv₁, hv₂]

/-- **A record without values** leaves the variable those it had. -/
lemma read_of_resets (db : DescriptorDb X) (depth : ℕ) (read : State → Reader State)
    (h : Resets H v.descriptor bs) :
    ∃ w rest, (v.read H db depth read).run bs = .ok (w, rest) ∧ w.descriptor = v.descriptor ∧
      w.values = v.values := by
  obtain ⟨hsimple, hint, bs₁, readFlags, bs₂, time, bs₃, hhint, hflags, hdefault, htime⟩ := h
  obtain ⟨t, ht⟩ : ∃ t, v.descriptor.varType = .simple t := by
    cases ht : v.descriptor.varType with
    | simple t => exact ⟨t, rfl⟩
    | stateDesc name => simp [ht, VarType.isStateDesc] at hsimple
  obtain ⟨time', htime', -⟩ := (alike_readTimestamp readFlags _ v.timestamp).exists_right htime
  have hvalue : (v.readValue H db depth read).run bs₁ =
      .ok ({ v with timestamp := time', values := v.values }, bs₃) := by
    rw [Variable.readValue, ht]
    simp only [Var.readSimple]
    rw [Reader.bind_ok hflags, Reader.bind_ok htime', Reader.optional, if_neg hdefault]
    rfl
  refine ⟨⟨v.descriptor, v.values, time', hint, true⟩, bs₃, ?_, rfl, rfl⟩
  rw [Variable.read, Reader.bind_ok hhint, Reader.bind_ok hvalue]
  rfl

end Read

/-- **A record determines the values of a variable** exactly if it has them, or if the variable
is at its defaults anyway: a record that says that the values are the defaults does not make
them so. -/
theorem read_determined_iff (H : Host) (db : DescriptorDb X) (depth : ℕ) (bs : Bytes)
    {v₁ v₂ : Variable} (hd : v₁.descriptor = v₂.descriptor) :
    Determined H db depth bs v₁ v₂ ↔
      (Resets H v₁.descriptor bs → v₁.AtDefaults db ∧ v₂.AtDefaults db) := by
  have hread (v : Variable) (hv : Resets H v.descriptor bs) :=
    read_of_resets db depth (State.read H db depth) hv
  constructor
  · rintro ⟨-, hdefault⟩ hresets
    have hboth : ∀ v ∈ [v₁, v₂], Resets H v.descriptor bs → v.AtDefaults db := by
      intro v hv hr
      obtain ⟨w, rest, hw, hdesc, hvalues⟩ := hread v hr
      have hw' := hdefault hresets v hv w rest hw
      rwa [Var.AtDefaults, hdesc, hvalues] at hw'
    exact ⟨hboth v₁ (by simp) hresets, hboth v₂ (by simp) (hd ▸ hresets)⟩
  · intro h
    refine ⟨alike_read hd fun hr => (h hr).1.values_eq hr.1 hd (h hr).2, ?_⟩
    intro hresets v hv w rest hw
    have hmem : v.descriptor = v₁.descriptor ∧ v.AtDefaults db := by
      rcases List.mem_pair.1 hv with rfl | rfl
      · exact ⟨rfl, (h hresets).1⟩
      · exact ⟨hd.symm, (h hresets).2⟩
    obtain ⟨w', rest', hw', hdesc, hvalues⟩ := hread v (hmem.1.symm ▸ hresets)
    cases hw.symm.trans hw'
    rw [Var.AtDefaults, hdesc, hvalues]
    exact hmem.2

/-- A record with a value in it. -/
theorem valueRecord_determined :
    Determined plainHost testDb 1 [0x00, 0x10, 0x07, 0x00, 0x00, 0x00] testSix
      (freshOf testV2.vars[1] .int 0) := by
  have hd : testSix.descriptor = (freshOf testV2.vars[1] .int 0).descriptor := rfl
  refine (read_determined_iff plainHost testDb 1 _ hd).2 ?_
  rintro ⟨-, hint, bs₁, readFlags, bs₂, -, -, hhint, hflags, hdefault, -⟩
  cases hhint
  cases hflags
  exact absurd rfl hdefault

/-- A record without values does not reset the variable; a blob that names the variable twice,
first with the value 6 and then at its default, loads as 6. -/
theorem defaultRecord_keeps_value :
    ¬ Determined plainHost testDb 1 [0x00, 0x18] testSix (freshOf testV2.vars[1] .int 0) ∧
      State.fromBlob plainHost testDb 2 [0x00, 0x80, 0x04, 0xF0, 0xAB, 0x9A, 0x8C, 0x8B, 0x02, 0x00,
          0x00, 0x00, 0x06, 0x02, 0x01, 0x00, 0x10, 0x06, 0x00, 0x00, 0x00, 0x01, 0x00, 0x18,
            0x00] =
        .ok ⟨testV2, testFreshVars.set 1 { testSix with dirty := true }, [], none, 0⟩ := by
  refine ⟨?_, rfl⟩
  rintro ⟨⟨-, hvalues⟩, -⟩
  cases hvalues

end Moulars.Sdl
