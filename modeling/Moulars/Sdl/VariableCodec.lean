import Moulars.Plasma.CreatableCodec
import Moulars.Sdl.State

/-!
Writing a variable and reading it back.
-/

namespace Moulars.Sdl

open Lib Lib.Wire Lib.Text Hashes Plasma

/-! ### Elements -/

/-- The texts that fit their thirty-two bytes; no other type has a limit. -/
def Fits : (t : SimpleType) → t.Elem → Prop
  | .string32, s => (encodeUtf8 s.toList).length ≤ 31 ∧ 0 ∉ encodeUtf8 s.toList
  | _, _ => True

/-- What is known of an element that was read. -/
def Storable : (t : SimpleType) → t.Elem → Prop
  | .key, u => u.Named
  | .rgb, c => c.a = F32.one
  | .rgb8, c => c.a = 255
  | .creatable, c => ∀ x ∈ c, x.Proper
  | _, _ => True

/-- The bytes of an element; those of a creatable depend on how it is compressed. -/
def elemBytes : (t : SimpleType) → t.Elem → Bytes
  | .ageTimeOfDay, _ => []
  | .bool, v => le 1 (if v then (1 : UInt8) else 0).toNat
  | .byte, v => le 1 v.toNat
  | .creatable, _ => []
  | .double, v => le 8 v.toNat
  | .float, v => le 4 v.toNat
  | .int, v => le 4 v.toUInt32.toNat
  | .key, v => v.bytes
  | .point3, v => bytes3 v.x v.y v.z
  | .quat, v => bytes4 v.x v.y v.z v.w
  | .rgb, v => bytes3 v.r v.g v.b
  | .rgb8, v => le 1 v.b.toNat ++ (le 1 v.g.toNat ++ le 1 v.r.toNat)
  | .rgba, v => bytes4 v.r v.g v.b v.a
  | .rgba8, v => le 1 v.b.toNat ++ (le 1 v.g.toNat ++ (le 1 v.r.toNat ++ le 1 v.a.toNat))
  | .short, v => le 2 v.toUInt16.toNat
  | .string32, v => string32Bytes v
  | .time, v => v.bytes
  | .vector3, v => bytes3 v.x v.y v.z

lemma writeElem_eq (Z : Zlib) {t : SimpleType} (ht : t ≠ .creatable) {e : t.Elem}
    (h : Storable t e) : writeElem Z t e = Out.put (elemBytes t e) := by
  cases t with
  | creatable => exact absurd rfl ht
  | key => exact Uoid.codes.write e h
  | _ => rfl

@[simp] lemma length_string32Bytes (s : String) : (string32Bytes s).length = 32 := by
  simp only [string32Bytes, List.length_append, List.length_take, List.length_replicate,
    List.length_singleton]
  omega

lemma string32Text_string32Bytes {s : String} (h : Fits .string32 s) :
    string32Text (string32Bytes s) = s := by
  obtain ⟨hlen, hnul⟩ := h
  have hzeros : string32Bytes s =
      encodeUtf8 s.toList ++ 0 :: List.replicate (31 - (encodeUtf8 s.toList).length) 0 := by
    rw [string32Bytes, List.take_of_length_le (by simp; omega), List.append_assoc,
      ← List.replicate_succ', List.replicate_succ]
  have htake : (string32Bytes s).takeWhile (· ≠ 0) = encodeUtf8 s.toList := by
    rw [hzeros, List.takeWhile_append_of_pos, List.takeWhile_cons_of_neg (by simp),
      List.append_nil]
    intro b hb
    have : b ≠ 0 := fun h0 => hnul (h0 ▸ hb)
    simpa using this
  rw [string32Text, htake, fromUtf8Lossy_encodeUtf8, String.ofList_toList]

lemma readsDeep_creatable (Z : Zlib) {o : Option Creatable} (h : ∀ c ∈ o, c.Proper) {b : Bytes}
    (hb : writeCreatable Z o = .ok b) : ReadsDeep (readCreatable Z) b o := by
  cases o with
  | none =>
    obtain rfl := Out.put_eq_ok.1 hb
    exact ⟨0, fun d _ => (Reads.u16 ClassID.nil.code).bind_nil (Reads.pure none)⟩
  | some c =>
    obtain ⟨body, hbody, rfl⟩ := Out.put_append_eq_ok.1 hb
    have hclass : c.classId ≠ ClassID.nil.code := by
      cases c <;> simp [Creatable.classId, Creatable.classID, ClassID.code]
    cases hw : c.streamWrite Z with
    | error e => rw [hw] at hbody; cases hbody
    | ok buf =>
      rw [hw] at hbody
      replace hbody : (if buf.length < 2 ^ 32 then Out.put (le 4 buf.length) ++ Out.put buf
        else Out.fail (.error "Creatable too large for stream")) = .ok body := hbody
      split at hbody
      · rename_i hlen
        obtain rfl := Out.put_eq_ok.1 hbody
        refine (Factory.readsBack_of_proper Z (h c rfl) buf hw).map fun d hd => ?_
        refine (Reads.u16 c.classId).bind ?_
        rw [if_neg hclass]
        refine Reads.bind_count32 hlen fun size hsize => ?_
        rw [hsize]
        exact (Reads.exact buf rfl).bind_nil (reads_within hd)
      · cases hbody

/-- **Every element is read back from what it is written as.** -/
lemma readsDeep_elem (Z : Zlib) {t : SimpleType} {e : t.Elem} (h : Storable t e) (hf : Fits t e)
    {b : Bytes} (hb : writeElem Z t e = .ok b) :
    ReadsDeep (fun depth => readElem Z depth t) b e := by
  by_cases ht : t = .creatable
  · subst ht
    exact readsDeep_creatable Z h hb
  rw [writeElem_eq Z ht h] at hb
  obtain rfl := Out.put_eq_ok.1 hb
  cases t with
  | creatable => exact absurd rfl ht
  | ageTimeOfDay => exact .of_reads (Reads.pure _)
  | bool =>
    have hread := (Reads.u8 (if e then (1 : UInt8) else 0)).bind_pure (f := fun v => v != 0)
    exact .of_reads (by cases e <;> exact hread)
  | byte => exact .of_reads (Reads.u8 e)
  | double => exact .of_reads (Reads.u64 e)
  | float => exact .of_reads (Reads.u32 e)
  | int => exact .of_reads (Reads.i32 e)
  | key => exact .of_reads (Uoid.codes.reads e h)
  | point3 => exact .of_reads (Vector3.codes.reads e trivial)
  | quat => exact .of_reads (Quaternion.codes.reads e trivial)
  | rgb =>
    obtain ⟨r, g, b, a⟩ := e
    obtain rfl : a = F32.one := h
    exact .of_reads (reads_three (fun r g b => ColorRGBA.mk r g b F32.one) r g b)
  | rgb8 =>
    obtain ⟨b, g, r, a⟩ := e
    obtain rfl : a = 255 := h
    exact .of_reads ((Reads.u8 b).bind ((Reads.u8 g).bind (Reads.u8 r).bind_pure))
  | rgba => exact .of_reads (reads_four ColorRGBA.mk e.r e.g e.b e.a)
  | rgba8 =>
    exact .of_reads ((Reads.u8 e.b).bind ((Reads.u8 e.g).bind ((Reads.u8 e.r).bind
      (Reads.u8 e.a).bind_pure)))
  | short => exact .of_reads (Reads.i16 e)
  | string32 =>
    have hread := (Reads.exact (string32Bytes e) (length_string32Bytes e)).bind_pure
      (f := string32Text)
    rw [string32Text_string32Bytes hf] at hread
    exact .of_reads hread
  | time => exact .of_reads (UnifiedTime.codes.reads e trivial)
  | vector3 => exact .of_reads (Vector3.codes.reads e trivial)

lemma yields_creatable (Z : Zlib) (depth : ℕ) :
    Yields (readCreatable Z depth) fun o _ => ∀ c ∈ o, c.Proper := by
  refine Yields.u16.bind fun classId _ _ => ?_
  split
  · exact Yields.pure _ (by simp)
  · refine Yields.u32.bind fun size _ _ => (Yields.exact _).bind fun buf _ _ => ?_
    refine yields_within buf ((Factory.yields_creatableAs Z depth classId).imp ?_)
    exact fun o _ h c hc => (h c hc).1

lemma yields_elem (Z : Zlib) (depth : ℕ) (t : SimpleType) :
    Yields (readElem Z depth t) fun e c =>
      Storable t e ∧ (elemBytes t e).length ≤ c.length := by
  cases t with
  | creatable => exact (yields_creatable Z depth).imp fun o _ h => ⟨h, by simp [elemBytes]⟩
  | ageTimeOfDay => exact Yields.pure _ ⟨trivial, by simp [elemBytes]⟩
  | bool => exact Yields.u8.bind fun v c hc => Yields.pure _ ⟨trivial, by simp [elemBytes, hc]⟩
  | byte => exact Yields.u8.imp fun v c hc => ⟨trivial, by simp [elemBytes, hc]⟩
  | double => exact Yields.u64.imp fun v c hc => ⟨trivial, by simp [elemBytes, hc]⟩
  | float => exact Yields.u32.imp fun v c hc => ⟨trivial, by simp [elemBytes, hc]⟩
  | int => exact Yields.i32.imp fun v c hc => ⟨trivial, by simp [elemBytes, hc]⟩
  | key => exact Uoid.yields
  | point3 => exact Vector3.yields.imp fun v c hc => ⟨trivial, by simp [elemBytes, hc]⟩
  | quat => exact Quaternion.yields.imp fun v c hc => ⟨trivial, by simp [elemBytes, hc]⟩
  | rgb =>
    refine (yields_three fun r g b => ColorRGBA.mk r g b F32.one).imp ?_
    rintro v c ⟨r, g, b, rfl, rfl⟩
    exact ⟨rfl, by simp [elemBytes]⟩
  | rgb8 =>
    refine Yields.u8.bind fun b c hb => Yields.u8.bind fun g c' hg => ?_
    refine Yields.u8.bind fun r c'' hr => Yields.pure _ ⟨rfl, ?_⟩
    simp [elemBytes, hb, hg, hr]
  | rgba =>
    refine (yields_four ColorRGBA.mk).imp ?_
    rintro v c ⟨r, g, b, a, rfl, rfl⟩
    exact ⟨trivial, by simp [elemBytes]⟩
  | rgba8 =>
    refine Yields.u8.bind fun b c hb => Yields.u8.bind fun g c' hg => ?_
    refine Yields.u8.bind fun r c'' hr => Yields.u8.bind fun a c₃ ha => Yields.pure _ ⟨trivial, ?_⟩
    simp [elemBytes, hb, hg, hr, ha]
  | short => exact Yields.i16.imp fun v c hc => ⟨trivial, by simp [elemBytes, hc]⟩
  | string32 =>
    refine (Yields.exact 32).bind fun buf c hc => Yields.pure _ ⟨trivial, ?_⟩
    simp [elemBytes, hc]
  | time => exact UnifiedTime.yields.imp fun v c hc => ⟨trivial, by simp [elemBytes, hc]⟩
  | vector3 => exact Vector3.yields.imp fun v c hc => ⟨trivial, by simp [elemBytes, hc]⟩

/-! ### Hints, flags and counts -/

def hintBytes (hint : String) : Bytes :=
  if hint = "" then le 1 0 else le 1 hasNotificationInfo.toNat ++ (le 1 0 ++ safeBytes hint)

lemma writeNotificationHint_eq {hint : String} (h : Latin1Safe hint) :
    writeNotificationHint hint = Out.put (hintBytes hint) := by
  rw [writeNotificationHint, hintBytes]
  split
  · rfl
  · rw [writeSafeStr_latin1 h.length]
    rfl

lemma reads_notificationHint {hint : String} (h : Latin1Safe hint) :
    Reads readNotificationHint (hintBytes hint) hint := by
  rw [hintBytes]
  split
  · rename_i he
    rw [he]
    exact (Reads.u8 0).bind_nil (Reads.pure "")
  · exact (Reads.u8 hasNotificationInfo).bind ((Reads.u8 0).bind (reads_safeStr h))

section Flags

variable {σ : Type} (v : Var σ) (same : Bool)

lemma writeFlags_sameAsDefault : v.writeFlags same &&& sameAsDefault = 0 ↔ same = false := by
  unfold Var.writeFlags
  cases same <;> cases v.dirty <;> split <;> decide

lemma writeFlags_hasTimestamp :
    v.writeFlags same &&& hasTimestamp ≠ 0 ↔ v.timestamp ≠ UnifiedTime.default := by
  unfold Var.writeFlags
  by_cases h : v.timestamp = UnifiedTime.default
  · simp only [h, ne_eq, not_true_eq_false, iff_false]
    cases same <;> cases v.dirty <;> decide
  · simp only [h, ne_eq, not_false_eq_true, iff_true, if_false]
    cases same <;> cases v.dirty <;> decide

lemma writeFlags_wantTimestamp : v.writeFlags same &&& wantTimestamp = 0 := by
  unfold Var.writeFlags
  cases same <;> cases v.dirty <;> split <;> decide

lemma readTimestamp_default (H : Host) (timestamp : UnifiedTime)
    (h : v.timestamp = UnifiedTime.default) :
    readTimestamp H (v.writeFlags same) timestamp = pure timestamp := by
  rw [readTimestamp, if_neg (by rw [writeFlags_hasTimestamp]; exact not_not.2 h), if_neg]
  rintro ⟨-, hwant⟩
  exact hwant (writeFlags_wantTimestamp v same)

end Flags

/-- The bytes of a count, where the descriptor does not give it. -/
def countBytes (descriptor : VarDescriptor) (n : ℕ) : Bytes :=
  if descriptor.count = none then le 4 n else []

lemma writeVarCount_eq {descriptor : VarDescriptor} {n : ℕ} (h : n < 10000) :
    writeVarCount descriptor n = Out.put (countBytes descriptor n) := by
  rw [writeVarCount, if_neg (by omega), countBytes]
  split <;> rfl

lemma reads_varCount {descriptor : VarDescriptor} {n : ℕ} (h : n < 10000)
    (hc : ∀ m ∈ descriptor.count, n = m) :
    Reads (readVarCount descriptor) (countBytes descriptor n) n := by
  have hcheck : checkVarCount n = pure n := by rw [checkVarCount, if_neg (by omega)]
  rw [readVarCount, countBytes]
  cases hd : descriptor.count with
  | some m =>
    obtain rfl := hc m hd
    simp only [hcheck]
    exact Reads.pure n
  | none =>
    have hcount : Reads (Reader.u32 >>= fun c => checkVarCount c.toNat) (le 4 n ++ []) n :=
      Reads.bind_count32 (by omega) fun c hc => by rw [hc, hcheck]; exact Reads.pure n
    simpa using hcount

lemma yields_varCount (descriptor : VarDescriptor) : Yields (readVarCount descriptor)
    fun n c => c.length = (countBytes descriptor n).length := by
  have hcheck : ∀ n, Yields (checkVarCount n) fun _ c => c = [] := by
    intro n
    rw [checkVarCount]
    split
    · exact Yields.fail _ _
    · exact Yields.pure _ rfl
  rw [readVarCount]
  cases hd : descriptor.count with
  | some m => exact (hcheck m).imp fun n c hc => by simp [countBytes, hd, hc]
  | none =>
    refine Yields.u32.bind fun m c hm => (hcheck _).imp fun n c' hc => ?_
    simp [countBytes, hd, hc, hm]

end Moulars.Sdl
