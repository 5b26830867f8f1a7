import Moulars.Lib.Fallible
import Moulars.Lib.Grammar
import Moulars.Sdl.Parser

/-!
The grammar of descriptor files, and that the parser accepts exactly what it derives.

A file is a series of descriptors, a descriptor a series of versions and variables, a variable
has a series of options. The parser keeps the last version and the last default of such a
series, and it ends the options with the first token that begins none.
-/

namespace Moulars.Sdl

open Lib Lib.Grammar Plasma Sdl.Parser
open TokenParser.Parser (Step)

/-! ### The grammar -/

namespace Grammar

def typeWords : List (String × SimpleType) :=
  [("agetimeofday", .ageTimeOfDay), ("bool", .bool), ("byte", .byte), ("creatable", .creatable),
    ("message", .creatable), ("double", .double), ("float", .float), ("int", .int),
    ("plkey", .key), ("point3", .point3), ("quat", .quat), ("quaternion", .quat), ("rgb", .rgb),
    ("rgb8", .rgb8), ("rgba", .rgba), ("rgba8", .rgba8), ("short", .short),
    ("string32", .string32), ("time", .time), ("vector3", .vector3)]

inductive TypeName : Lang Token VarType
  | word {ident t rest} (h : (ident.toLower, t) ∈ typeWords) :
      TypeName (.simple t) (.identifier ident :: rest) rest
  | reference {ident rest} : TypeName (.stateDesc ident) (.typeReference ident :: rest) rest

/-- What follows the opening bracket after the name of a variable. -/
inductive Count : Lang Token (Option ℕ)
  | fixed {text n rest} (h : parseUsize text = some n) :
      Count (some n) (.number text :: .char ']' :: rest) rest
  | variable {rest} : Count none (.char ']' :: rest) rest

section Values

variable {α : Type}

inductive Numeral (parse : String → Option α) : Lang Token α
  | number {text a rest} (h : parse text = some a) : Numeral parse a (.number text :: rest) rest

inductive Boolean : Lang Token Bool
  | wordFalse {ident rest} (h : ident.toLower = "false") :
      Boolean false (.identifier ident :: rest) rest
  | wordTrue {ident rest} (h : ident.toLower = "true") :
      Boolean true (.identifier ident :: rest) rest
  | zero {rest} : Boolean false (.number "0" :: rest) rest
  | one {rest} : Boolean true (.number "1" :: rest) rest

/-- A value that may stand in parentheses. -/
inductive Wrapped (L : Lang Token α) : Lang Token α
  | bare {a ts rest} (h : L a ts rest) : Wrapped L a ts rest
  | parens {a ts rest} (h : L a ts (.char ')' :: rest)) : Wrapped L a (.char '(' :: ts) rest

/-- The numbers after the first one, up to the closing parenthesis. -/
inductive MoreNumerals (parse : String → Option α) : Lang Token (List α)
  | close {rest} : MoreNumerals parse [] (.char ')' :: rest) rest
  | comma {a as ts mid rest} (h : Numeral parse a ts mid) (hs : MoreNumerals parse as mid rest) :
      MoreNumerals parse (a :: as) (.char ',' :: ts) rest

/-- Numbers in parentheses, separated by commas. -/
inductive Sequence (parse : String → Option α) : Lang Token (List α)
  | mk {a as ts mid rest} (h : Numeral parse a ts mid) (hs : MoreNumerals parse as mid rest) :
      Sequence parse (a :: as) (.char '(' :: ts) rest

end Values

/-- The values that can stand as a default, for each type that can have one. -/
inductive Value : VarType → Lang Token (Option VarDefault)
  | bool {b ts rest} (h : Wrapped Boolean b ts rest) :
      Value (.simple .bool) (some (.bool b)) ts rest
  | byte {n ts rest} (h : Wrapped (Numeral parseU8) n ts rest) :
      Value (.simple .byte) (some (.byte n)) ts rest
  | double {x ts rest} (h : Wrapped (Numeral parseF64) x ts rest) :
      Value (.simple .double) (some (.double x)) ts rest
  | float {x ts rest} (h : Wrapped (Numeral parseF32) x ts rest) :
      Value (.simple .float) (some (.float x)) ts rest
  | int {n ts rest} (h : Wrapped (Numeral parseI32) n ts rest) :
      Value (.simple .int) (some (.int n)) ts rest
  | short {n ts rest} (h : Wrapped (Numeral parseI16) n ts rest) :
      Value (.simple .short) (some (.short n)) ts rest
  | time {secs ts rest} (h : Wrapped (Numeral parseU32) secs ts rest) :
      Value (.simple .time) (some (.time (UnifiedTime.fromSecs secs))) ts rest
  | literal {text rest} :
      Value (.simple .string32) (some (.string32 text)) (.stringLiteral text :: rest) rest
  | word {text rest} :
      Value (.simple .string32) (some (.string32 text)) (.identifier text :: rest) rest
  | key {rest} : Value (.simple .key) none (.identifier "nil" :: rest) rest
  | point3 {x y z ts rest} (h : Sequence parseF32 [x, y, z] ts rest) :
      Value (.simple .point3) (some (.vector3 ⟨x, y, z⟩)) ts rest
  | vector3 {x y z ts rest} (h : Sequence parseF32 [x, y, z] ts rest) :
      Value (.simple .vector3) (some (.vector3 ⟨x, y, z⟩)) ts rest
  | quat {x y z w ts rest} (h : Sequence parseF32 [x, y, z, w] ts rest) :
      Value (.simple .quat) (some (.quat ⟨x, y, z, w⟩)) ts rest
  | rgb {r g b ts rest} (h : Sequence parseF32 [r, g, b] ts rest) :
      Value (.simple .rgb) (some (.rgba ⟨r, g, b, F32.one⟩)) ts rest
  | rgb8 {r g b ts rest} (h : Sequence parseU8 [r, g, b] ts rest) :
      Value (.simple .rgb8) (some (.rgba8 ⟨r, g, b, 255⟩)) ts rest
  | rgba {r g b a ts rest} (h : Sequence parseF32 [r, g, b, a] ts rest) :
      Value (.simple .rgba) (some (.rgba ⟨r, g, b, a⟩)) ts rest
  | rgba8 {r g b a ts rest} (h : Sequence parseU8 [r, g, b, a] ts rest) :
      Value (.simple .rgba8) (some (.rgba8 ⟨r, g, b, a⟩)) ts rest

/-- The options of a variable, with the default where one is given. -/
inductive VarOption (t : VarType) : Lang Token (Option (Option VarDefault))
  | default {d ts rest} (h : Value t d ts rest) :
      VarOption t (some d) (.identifier "DEFAULT" :: .char '=' :: ts) rest
  | defaultOption {ident rest} :
      VarOption t none (.identifier "DEFAULTOPTION" :: .char '=' :: .identifier ident :: rest) rest
  | displayOption {ident rest} :
      VarOption t none (.identifier "DISPLAYOPTION" :: .char '=' :: .identifier ident :: rest) rest
  | semicolon {rest} : VarOption t none (.char ';' :: rest) rest

/-- The last default of the options, `none` if there is none. -/
def lastDefault (opts : List (Option (Option VarDefault))) : Option VarDefault :=
  (opts.filterMap id).getLast?.join

inductive VarDecl : Lang Token VarDescriptor
  | mk {t name count opts ts ts' ts'' rest}
      (ht : TypeName t ts (.identifier name :: .char '[' :: ts'))
      (hcount : Count count ts' ts'') (hopts : Many (VarOption t) opts ts'' rest) :
      VarDecl ⟨name, t, count, lastDefault opts⟩ (.identifier "VAR" :: ts) rest

inductive Item : Lang Token (UInt16 ⊕ VarDescriptor)
  | version {v ts rest} (h : Numeral parseU16 v ts rest) :
      Item (.inl v) (.identifier "VERSION" :: ts) rest
  | var {var ts rest} (h : VarDecl var ts rest) : Item (.inr var) ts rest

/-- A descriptor: at least one version, the last of which counts, and the variables in order. -/
inductive Statedesc : Lang Token StateDescriptor
  | mk {name items version ts rest} (hitems : Many Item items ts (.char '\x7d' :: rest))
      (hversion : (items.filterMap Sum.getLeft?).getLast? = some version) :
      Statedesc ⟨name, version, items.filterMap Sum.getRight?⟩
        (.identifier "STATEDESC" :: .identifier name :: .char '\x7b' :: ts) rest

def File (ds : List StateDescriptor) (ts : List Token) : Prop := Many Statedesc ds ts []

end Grammar

/-! ### The parser -/

open Grammar

abbrev Accepts {α β : Type} (p : Parser α) (g : α → β) (L : Lang Token β) : Prop :=
  Parses Prod.fst p g L

variable {t : VarType} {ts rest : List Token}

lemma single_iff {t : Token} :
    ts = t :: rest ↔ ∃ k mid, ts = k :: mid ∧ k = t ∧ mid = rest := by
  constructor
  · rintro rfl
    exact ⟨t, rest, rfl, rfl, rfl⟩
  · rintro ⟨k, mid, rfl, rfl, rfl⟩
    rfl

lemma accepts_expectIdentifier (context : String) :
    Accepts (expectIdentifier context) id fun ident ts rest => ts = .identifier ident :: rest := by
  refine Parses.token (fun k ident ts rest => k = .identifier ident ∧ ts = rest)
    (fun _ _ _ => single_iff) ?_ rfl
  rintro ⟨token, location⟩
  cases token with
  | identifier ident => exact (Parses.pure ident id).congr (by simp [eq_comm])
  | _ => exact (Parses.fail _ _).congr (by simp)

lemma accepts_expectToken (expected : Token) (context : String) :
    Accepts (expectToken expected context) (fun _ => ())
      fun _ ts rest => ts = expected :: rest := by
  refine Parses.token (fun k _ ts rest => k = expected ∧ ts = rest) (fun _ _ _ => single_iff) ?_ rfl
  rintro ⟨token, location⟩
  by_cases h : token = expected
  · simp only [h, if_true]
    exact (Parses.pure location _).congr (by simp)
  · simp only [h, if_false]
    exact (Parses.fail _ _).congr (by simp)

lemma accepts_token_bind {α β : Type} (expected : Token) (context : String)
    {f : Location → Parser α} {g : α → β} {L : Lang Token β} (hf : ∀ l, Accepts (f l) g L) :
    Accepts (expectToken expected context >>= f) g
      fun b ts rest => ∃ mid, ts = expected :: mid ∧ L b mid rest := by
  refine ((accepts_expectToken expected context).bind (M := fun _ => L) hf).congr
    fun b ts rest => ?_
  constructor
  · rintro ⟨-, mid, rfl, h⟩
    exact ⟨mid, rfl, h⟩
  · rintro ⟨mid, rfl, h⟩
    exact ⟨(), mid, rfl, h⟩

section Values

variable {α : Type} (parse : String → Option α) (context : String)

lemma accepts_expectNumberOr {paren : Location → Parser α} {P : Lang Token α}
    (hparen : ∀ l, Accepts (paren l) id P) :
    Accepts (expectNumberOr parse context paren) id fun a ts rest =>
      Numeral parse a ts rest ∨ ∃ mid, ts = .char '(' :: mid ∧ P a mid rest := by
  refine Parses.token (fun k a ts rest =>
    (∃ text, k = .number text ∧ parse text = some a ∧ ts = rest) ∨ k = .char '(' ∧ P a ts rest)
    (fun a ts rest => ?_) ?_ rfl
  · constructor
    · rintro (h | ⟨mid, rfl, h⟩)
      · obtain ⟨h⟩ := h
        exact ⟨_, _, rfl, .inl ⟨_, rfl, h, rfl⟩⟩
      · exact ⟨_, mid, rfl, .inr ⟨rfl, h⟩⟩
    · rintro ⟨k, mid, rfl, ⟨text, rfl, h, rfl⟩ | ⟨rfl, h⟩⟩
      · exact .inl (.number h)
      · exact .inr ⟨mid, rfl, h⟩
  · rintro ⟨token, location⟩
    split
    · rename_i text location heq
      cases heq
      cases hp : parse text with
      | none => exact (Parses.fail _ _).congr (by simp [hp])
      | some a => exact (Parses.pure a id).congr (by simp [hp, eq_comm])
    · rename_i heq
      cases heq
      exact (hparen location).congr (by simp)
    · rename_i hnumber hparen' heq
      cases heq
      exact (Parses.fail _ _).congr (by aesop)
    · rename_i heq
      cases heq

lemma accepts_expectNumber : Accepts (expectNumber parse context false) id (Numeral parse) :=
  (accepts_expectNumberOr parse context fun _ => Parses.fail _ _).congr (by simp)

variable {L : Lang Token α} {ts rest : List Token}

lemma wrapped_iff {a : α} :
    Wrapped L a ts rest ↔
      L a ts rest ∨ ∃ mid, ts = .char '(' :: mid ∧ L a mid (.char ')' :: rest) := by
  constructor
  · rintro (h | h)
    · exact .inl h
    · exact .inr ⟨_, rfl, h⟩
  · rintro (h | ⟨mid, rfl, h⟩)
    · exact .bare h
    · exact .parens h

lemma accepts_closed {p : Parser α} (hp : Accepts p id L) :
    Accepts (do let inner ← p; let _ ← expectToken (.char ')') context; pure inner) id
      fun a ts rest => L a ts (.char ')' :: rest) := by
  refine (hp.bind (M := fun a b ts rest => ts = .char ')' :: rest ∧ b = a) fun a => ?_).congr
    fun a ts rest => ?_
  · refine (accepts_token_bind _ _ fun _ => Parses.pure a id).congr fun b ts rest => ?_
    constructor
    · rintro ⟨mid, rfl, rfl, rfl⟩
      exact ⟨rfl, rfl⟩
    · rintro ⟨rfl, rfl⟩
      exact ⟨rest, rfl, rfl, rfl⟩
  · constructor
    · rintro ⟨b, mid, h, rfl, rfl⟩
      exact h
    · exact fun h => ⟨a, _, h, rfl, rfl⟩

lemma accepts_expectNumber_paren :
    Accepts (expectNumber parse context true) id (Wrapped (Numeral parse)) :=
  (accepts_expectNumberOr parse context fun _ => accepts_closed context
    (accepts_expectNumber parse context)).congr fun _ _ _ => wrapped_iff.symm

lemma boolean_identifier {b : Bool} {ident : String} :
    Boolean b (.identifier ident :: ts) rest ↔
      ident.toLower = (if b then "true" else "false") ∧ ts = rest := by
  constructor
  · intro h
    cases h with
    | wordFalse h => exact ⟨h, rfl⟩
    | wordTrue h => exact ⟨h, rfl⟩
  · rintro ⟨h, rfl⟩
    cases b with
    | false => exact .wordFalse h
    | true => exact .wordTrue h

lemma boolean_number {b : Bool} {text : String} :
    Boolean b (.number text :: ts) rest ↔ text = (if b then "1" else "0") ∧ ts = rest := by
  constructor
  · intro h
    cases h with
    | zero => exact ⟨rfl, rfl⟩
    | one => exact ⟨rfl, rfl⟩
  · rintro ⟨rfl, rfl⟩
    cases b with
    | false => exact .zero
    | true => exact .one

lemma accepts_expectBoolOr {paren : Location → Parser Bool} {P : Lang Token Bool}
    (hparen : ∀ l, Accepts (paren l) id P) :
    Accepts (expectBoolOr context paren) id fun b ts rest =>
      Boolean b ts rest ∨ ∃ mid, ts = .char '(' :: mid ∧ P b mid rest := by
  refine Parses.token (fun k b ts rest => Boolean b (k :: ts) rest ∨ k = .char '(' ∧ P b ts rest)
    (fun b ts rest => ?_) ?_ rfl
  · constructor
    · rintro (h | ⟨mid, rfl, h⟩)
      · cases h with
        | wordFalse h => exact ⟨_, _, rfl, .inl (.wordFalse h)⟩
        | wordTrue h => exact ⟨_, _, rfl, .inl (.wordTrue h)⟩
        | zero => exact ⟨_, _, rfl, .inl .zero⟩
        | one => exact ⟨_, _, rfl, .inl .one⟩
      · exact ⟨_, mid, rfl, .inr ⟨rfl, h⟩⟩
    · rintro ⟨k, mid, rfl, h | ⟨rfl, h⟩⟩
      · exact .inl h
      · exact .inr ⟨mid, rfl, h⟩
  · rintro ⟨token, location⟩
    split
    · rename_i ident location heq
      cases heq
      split_ifs with hfalse htrue
      · refine (Parses.pure false id).congr fun b ts rest => ?_
        cases b <;> simp [boolean_identifier, hfalse]
      · refine (Parses.pure true id).congr fun b ts rest => ?_
        cases b <;> simp [boolean_identifier, htrue]
      · refine Parses.fail_of fun b ts rest => ?_
        cases b <;> simp [boolean_identifier, hfalse, htrue]
    · rename_i text location heq
      cases heq
      split_ifs with hzero hone
      · refine (Parses.pure false id).congr fun b ts rest => ?_
        cases b <;> simp [boolean_number, hzero]
      · refine (Parses.pure true id).congr fun b ts rest => ?_
        cases b <;> simp [boolean_number, hone]
      · refine Parses.fail_of fun b ts rest => ?_
        cases b <;> simp [boolean_number, hzero, hone]
    · rename_i heq
      cases heq
      refine (hparen location).congr fun b ts rest => ⟨fun h => .inr ⟨rfl, h⟩, ?_⟩
      rintro (h | ⟨-, h⟩)
      · cases h
      · exact h
    · rename_i hident hnumber hparen' heq
      cases heq
      refine Parses.fail_of fun b ts rest => ?_
      rintro (h | ⟨rfl, -⟩)
      · cases h with
        | wordFalse _ => exact hident _ rfl
        | wordTrue _ => exact hident _ rfl
        | zero => exact hnumber _ rfl
        | one => exact hnumber _ rfl
      · exact hparen' rfl
    · rename_i heq
      cases heq

lemma accepts_expectBool : Accepts (expectBool context) id (Wrapped Boolean) := by
  have hbare : Accepts (expectBoolOr context fun location =>
      TokenParser.Parser.fail (.unexpected (.char '(') location)) id Boolean :=
    (accepts_expectBoolOr context fun _ => Parses.fail _ _).congr (by simp)
  exact (accepts_expectBoolOr context fun _ => accepts_closed context hbare).congr
    fun _ _ _ => wrapped_iff.symm

def SequenceRound (parse : String → Option α) (k : Token) (result : List α) :
    Lang Token (Step (List α) (List α)) := fun step ts rest =>
  (k = .char ',' ∧ ∃ a, Numeral parse a ts rest ∧ step = .again (result ++ [a])) ∨
    k = .char ')' ∧ step = .done result ∧ ts = rest

lemma rounds_sequence {result values : List α} :
    Rounds (SequenceRound parse) (fun _ _ => False) result values ts rest ↔
      ∃ as, values = result ++ as ∧ MoreNumerals parse as ts rest := by
  constructor
  · intro h
    induction h with
    | eof h => exact h.elim
    | again h _ ih =>
      rcases h with ⟨rfl, a, ha, heq⟩ | ⟨-, heq, -⟩
      · cases heq
        obtain ⟨as, rfl, has⟩ := ih
        exact ⟨a :: as, by simp, .comma ha has⟩
      · cases heq
    | done h =>
      rcases h with ⟨-, a, -, heq⟩ | ⟨rfl, heq, rfl⟩
      · cases heq
      · cases heq
        exact ⟨[], by simp, .close⟩
    | putBack h => rcases h with ⟨-, a, -, heq⟩ | ⟨-, heq, -⟩ <;> cases heq
  · rintro ⟨as, rfl, has⟩
    induction has generalizing result with
    | close => exact .done (.inr ⟨rfl, by simp, rfl⟩)
    | @comma a as ts mid rest ha _ ih =>
      have hrest := @ih (result ++ [a])
      rw [List.append_assoc, List.singleton_append] at hrest
      exact .again (.inl ⟨rfl, a, ha, rfl⟩) hrest

lemma accepts_expectSequence :
    Accepts (expectSequence parse context) Prod.fst (Sequence parse) := by
  refine (accepts_token_bind (L := fun values ts rest => ∃ a as mid, values = a :: as ∧
    Numeral parse a ts mid ∧ MoreNumerals parse as mid rest) _ _ fun start => ?_).congr
      fun values ts rest => ?_
  · refine ((accepts_expectNumber parse context).bind (M := fun a values ts rest =>
      ∃ as, values = a :: as ∧ MoreNumerals parse as ts rest) fun a => ?_).congr
        fun values ts rest => ?_
    · refine (Parses.loop (B := SequenceRound parse) (F := fun _ _ => False) ?_ (by simp) [a]).congr
        fun _ _ _ => rounds_sequence parse
      rintro ⟨token, location⟩ result
      split
      · rename_i heq
        cases heq
        refine ((accepts_expectNumber parse context).bind (M := fun a step ts rest =>
          step = .again (result ++ [a]) ∧ ts = rest) fun a => Parses.pure _ _).congr
            fun step ts rest => ⟨?_, ?_⟩
        · rintro ⟨a, mid, ha, rfl, rfl⟩
          exact .inl ⟨rfl, a, ha, rfl⟩
        · rintro (⟨-, a, ha, rfl⟩ | ⟨h, -⟩)
          · exact ⟨a, rest, ha, rfl, rfl⟩
          · cases h
      · rename_i heq
        cases heq
        exact (Parses.pure _ _).congr (by simp [SequenceRound, stepMap])
      · rename_i hcomma hclose heq
        cases heq
        refine Parses.fail_of fun step ts rest => ?_
        rintro (⟨rfl, -⟩ | ⟨rfl, -⟩)
        · exact hcomma rfl
        · exact hclose rfl
    · constructor
      · rintro ⟨a, mid, ha, as, rfl, has⟩
        exact ⟨a, as, mid, rfl, ha, has⟩
      · rintro ⟨a, as, mid, rfl, ha, has⟩
        exact ⟨a, mid, ha, as, rfl, has⟩
  · constructor
    · rintro ⟨mid, rfl, a, as, mid', rfl, ha, has⟩
      exact .mk ha has
    · rintro ⟨ha, has⟩
      exact ⟨_, rfl, _, _, _, rfl, ha, has⟩

lemma accepts_expectElements (type : String) (build : List α → Option VarDefault)
    {M : Lang Token (Option VarDefault)} (hM : ∀ d ts rest, M d ts rest ↔
      ∃ values, Sequence parse values ts rest ∧ (build values).map some = some d) :
    Accepts (expectElements parse type build) id M := by
  refine ((accepts_expectSequence parse kwDefault).bind (M := fun values d ts rest =>
    (build values).map some = some d ∧ ts = rest) fun v => ?_).congr fun d ts rest => ?_
  · dsimp only
    cases hb : build v.1 with
    | none => exact (Parses.fail _ _).congr (by simp)
    | some d => exact (Parses.pure _ _).congr (by simp [eq_comm])
  · rw [hM]
    constructor
    · rintro ⟨values, mid, h, hd, rfl⟩
      exact ⟨values, h, hd⟩
    · rintro ⟨values, h, hd⟩
      exact ⟨values, rest, h, hd, rfl⟩

lemma accepts_map {β : Type} {p : Parser α} (hp : Accepts p id L) (f : α → β) {M : Lang Token β}
    (hM : ∀ b ts rest, M b ts rest ↔ ∃ a, L a ts rest ∧ b = f a) :
    Accepts (do let a ← p; pure (f a)) id M := by
  refine (hp.bind (M := fun a b ts rest => b = f a ∧ ts = rest)
    fun a => Parses.pure (f a) id).congr fun b ts rest => ?_
  rw [hM]
  constructor
  · rintro ⟨a, mid, h, rfl, rfl⟩
    exact ⟨a, h, rfl⟩
  · rintro ⟨a, h, rfl⟩
    exact ⟨a, rest, h, rfl, rfl⟩

end Values

lemma accepts_expectStringLiteral (context : String) :
    Accepts (expectStringLiteral context) id fun text ts rest =>
      ts = .stringLiteral text :: rest ∨ ts = .identifier text :: rest := by
  refine Parses.token (fun k text ts rest => (k = .stringLiteral text ∨ k = .identifier text) ∧
    ts = rest) (fun text ts rest => ?_) ?_ rfl
  · constructor
    · rintro (rfl | rfl)
      · exact ⟨_, _, rfl, .inl rfl, rfl⟩
      · exact ⟨_, _, rfl, .inr rfl, rfl⟩
    · rintro ⟨k, mid, rfl, rfl | rfl, rfl⟩
      · exact .inl rfl
      · exact .inr rfl
  · rintro ⟨token, location⟩
    cases token with
    | stringLiteral text => exact (Parses.pure text id).congr (by simp [eq_comm])
    | identifier text => exact (Parses.pure text id).congr (by simp [eq_comm])
    | _ => exact (Parses.fail _ _).congr (by simp)

lemma accepts_keyDefault :
    Accepts (parseDefaultValue (.simple .key)) id fun d ts rest =>
      d = none ∧ ts = .identifier "nil" :: rest := by
  refine Parses.token (fun k d ts rest => d = none ∧ k = .identifier "nil" ∧ ts = rest)
    (fun d ts rest => ?_) ?_ rfl
  · constructor
    · rintro ⟨rfl, rfl⟩
      exact ⟨_, _, rfl, rfl, rfl, rfl⟩
    · rintro ⟨k, mid, rfl, rfl, rfl, rfl⟩
      exact ⟨rfl, rfl⟩
  · rintro ⟨token, location⟩
    cases token with
    | identifier ident =>
      by_cases h : ident = "nil"
      · simp only [h, if_true]
        exact (Parses.pure _ _).congr (by simp)
      · simp only [h, if_false]
        exact (Parses.fail _ _).congr (by simp [h])
    | _ => exact (Parses.fail _ _).congr (by simp)

lemma accepts_parseDefaultValue (varType : VarType) :
    Accepts (parseDefaultValue varType) id (Value varType) := by
  cases varType with
  | stateDesc name => exact Parses.fail_of fun d ts rest => nofun
  | simple t =>
    cases t with
    | ageTimeOfDay => exact Parses.fail_of fun d ts rest => nofun
    | creatable => exact Parses.fail_of fun d ts rest => nofun
    | bool =>
      refine accepts_map (accepts_expectBool _) _ fun d ts rest => ⟨fun h => ?_, ?_⟩
      · cases h
        exact ⟨_, ‹_›, rfl⟩
      · rintro ⟨b, h, rfl⟩
        exact .bool h
    | byte | double | float | int | short | time =>
      refine accepts_map (accepts_expectNumber_paren _ _) _ fun d ts rest => ⟨fun h => ?_, ?_⟩
      · cases h
        exact ⟨_, ‹_›, rfl⟩
      · rintro ⟨n, h, rfl⟩
        constructor
        exact h
    | string32 =>
      refine accepts_map (accepts_expectStringLiteral _) _ fun d ts rest => ⟨fun h => ?_, ?_⟩
      · cases h with
        | literal => exact ⟨_, .inl rfl, rfl⟩
        | word => exact ⟨_, .inr rfl, rfl⟩
      · rintro ⟨text, rfl | rfl, rfl⟩
        · exact .literal
        · exact .word
    | key =>
      refine accepts_keyDefault.congr fun d ts rest => ⟨?_, fun h => ?_⟩
      · rintro ⟨rfl, rfl⟩
        exact .key
      · cases h
        exact ⟨rfl, rfl⟩
    | point3 | vector3 | quat | rgb | rgb8 | rgba | rgba8 =>
      rw [parseDefaultValue]
      refine accepts_expectElements _ _ _ fun d ts rest => ⟨fun h => ?_, ?_⟩
      · cases h
        exact ⟨_, ‹_›, rfl⟩
      · rintro ⟨values, h, hd⟩
        split at hd <;> cases hd
        constructor
        exact h

lemma accepts_parseDefault (varType : VarType) : Accepts (parseDefault varType) id
    fun d ts rest => ∃ mid, ts = .char '=' :: mid ∧ Value varType d mid rest :=
  accepts_token_bind _ _ fun _ => accepts_parseDefaultValue varType

/-! ### Variables -/

lemma namedType_eq_some {ident : String} {t : SimpleType} :
    namedType ident = some t ↔ (ident.toLower, t) ∈ typeWords := by
  rw [namedType]
  generalize ident.toLower = word
  split
  case h_21 => simp_all [typeWords]
  all_goals simp [typeWords, @eq_comm _ t]

lemma accepts_parseVarType : Accepts parseVarType id TypeName := by
  refine Parses.token_cons (fun t rest => nofun) ?_ rfl
  rintro ⟨token, location⟩
  cases token with
  | identifier ident =>
    cases hn : namedType ident with
    | none =>
      simp only [hn]
      refine Parses.fail_of fun t ts rest h => ?_
      cases h with
      | word h =>
        rw [namedType_eq_some.2 h] at hn
        cases hn
    | some t =>
      simp only [hn]
      refine (Parses.pure _ _).congr fun t' ts rest => ⟨?_, fun h => ?_⟩
      · rintro ⟨rfl, rfl⟩
        exact .word (namedType_eq_some.1 hn)
      · cases h with
        | word h =>
          rw [namedType_eq_some.2 h] at hn
          cases hn
          exact ⟨rfl, rfl⟩
  | typeReference ident =>
    refine (Parses.pure _ _).congr fun t ts rest => ⟨?_, fun h => ?_⟩
    · rintro ⟨rfl, rfl⟩
      exact .reference
    · cases h
      exact ⟨rfl, rfl⟩
  | _ => exact Parses.fail_of fun t ts rest => nofun

lemma accepts_parseVarCount : Accepts parseVarCount id Count := by
  refine Parses.token_cons (fun n rest => nofun) ?_ rfl
  rintro ⟨token, location⟩
  split
  · rename_i text location heq
    cases heq
    cases hp : parseUsize text with
    | none =>
      refine Parses.fail_of fun n ts rest h => ?_
      cases h with
      | fixed h =>
        rw [h] at hp
        cases hp
    | some n =>
      refine (accepts_token_bind _ _ fun _ => Parses.pure (some n) id).congr
        fun n' ts rest => ⟨?_, fun h => ?_⟩
      · rintro ⟨mid, rfl, rfl, rfl⟩
        exact .fixed hp
      · cases h with
        | fixed h =>
          rw [h] at hp
          cases hp
          exact ⟨_, rfl, rfl, rfl⟩
  · rename_i heq
    cases heq
    refine (Parses.pure _ _).congr fun n ts rest => ⟨?_, fun h => ?_⟩
    · rintro ⟨rfl, rfl⟩
      exact .variable
    · cases h
      exact ⟨rfl, rfl⟩
  · rename_i hnumber hclose heq
    cases heq
    refine Parses.fail_of fun n ts rest h => ?_
    cases h with
    | fixed h => exact hnumber _ rfl
    | «variable» => exact hclose rfl
  · rename_i heq
    cases heq

/-- The tokens an option can begin with. -/
def BeginsOption (k : Token) : Prop :=
  k ∈ [.identifier "DEFAULT", .identifier "DEFAULTOPTION", .identifier "DISPLAYOPTION", .char ';']

/-- What ends the options of a variable: a token that begins none. -/
def EndsOptions (ts : List Token) : Prop := ∃ k mid, ts = k :: mid ∧ ¬ BeginsOption k

lemma beginsOption_of_varOption {opt : Option (Option VarDefault)} {k : Token}
    (h : VarOption t opt (k :: ts) rest) : BeginsOption k := by
  cases h <;> simp [BeginsOption]

lemma default_of_varOption {opt : Option (Option VarDefault)}
    (h : VarOption t opt (.identifier "DEFAULT" :: ts) rest) :
    ∃ d mid, ts = .char '=' :: mid ∧ Value t d mid rest ∧ opt = some d := by
  generalize hk : Token.identifier "DEFAULT" :: ts = ks at h
  cases h with
  | default h =>
    cases hk
    exact ⟨_, _, rfl, h, rfl⟩
  | defaultOption => exact absurd hk (by simp)
  | displayOption => exact absurd hk (by simp)
  | semicolon => cases hk

def OptionRound (t : VarType) (build : Option VarDefault → VarDescriptor) (k : Token)
    (default : Option VarDefault) : Lang Token (Step (Option VarDefault) VarDescriptor) :=
  fun step ts rest =>
    (∃ opt, VarOption t opt (k :: ts) rest ∧ step = .again (opt.getD default)) ∨
      ¬ BeginsOption k ∧ step = .putBack (build default) ∧ ts = rest

lemma lastDefault_cons (opt : Option (Option VarDefault)) (opts : List (Option (Option VarDefault)))
    (default : Option VarDefault) :
    ((opt :: opts).filterMap id).getLast?.getD default =
      (opts.filterMap id).getLast?.getD (opt.getD default) := by
  cases opt with
  | none => rfl
  | some d => simp [List.getLast?_cons]

lemma rounds_options {build : Option VarDefault → VarDescriptor} {default : Option VarDefault}
    {var : VarDescriptor} :
    Rounds (OptionRound t build) (fun _ _ => False) default var ts rest ↔
      (∃ opts, Many (VarOption t) opts ts rest ∧
        var = build ((opts.filterMap id).getLast?.getD default)) ∧ EndsOptions rest := by
  constructor
  · intro h
    induction h with
    | eof h => exact h.elim
    | again h _ ih =>
      rcases h with ⟨opt, hopt, heq⟩ | ⟨-, heq, -⟩
      · cases heq
        obtain ⟨⟨opts, hopts, rfl⟩, hends⟩ := ih
        exact ⟨⟨opt :: opts, .cons hopt hopts, by rw [lastDefault_cons]⟩, hends⟩
      · cases heq
    | done h => rcases h with ⟨_, -, heq⟩ | ⟨-, heq, -⟩ <;> cases heq
    | putBack h =>
      rcases h with ⟨_, -, heq⟩ | ⟨hk, heq, rfl⟩
      · cases heq
      · cases heq
        exact ⟨⟨[], .nil, rfl⟩, _, _, rfl, hk⟩
  · rintro ⟨⟨opts, hopts, rfl⟩, hends⟩
    induction hopts generalizing default with
    | nil =>
      obtain ⟨k, mid, rfl, hk⟩ := hends
      exact .putBack (.inr ⟨hk, rfl, rfl⟩)
    | @cons opt opts ts mid rest hopt _ ih =>
      obtain ⟨k, ts, rfl⟩ : ∃ k ts', ts = k :: ts' := by cases hopt <;> exact ⟨_, _, rfl⟩
      rw [lastDefault_cons]
      exact .again (.inl ⟨opt, hopt, rfl⟩) (ih hends)

lemma accepts_skipped {α : Type} (context : String) (a : α) :
    Accepts (do
        let _ ← expectToken (.char '=') context
        let _ ← expectIdentifier context
        pure a) id
      fun b ts rest => ∃ ident, ts = .char '=' :: .identifier ident :: rest ∧ b = a := by
  refine (accepts_token_bind (L := fun b ts rest => ∃ ident, ts = .identifier ident :: rest ∧ b = a)
    _ _ fun _ => ?_).congr fun b ts rest => ?_
  · exact accepts_map (accepts_expectIdentifier context) (fun _ => a) fun b ts rest => Iff.rfl
  · constructor
    · rintro ⟨mid, rfl, ident, rfl, rfl⟩
      exact ⟨ident, rfl, rfl⟩
    · rintro ⟨ident, rfl, rfl⟩
      exact ⟨_, rfl, ident, rfl, rfl⟩

/-- A token that begins no option is put back, and ends the options. -/
lemma accepts_endOptions {build : Option VarDefault → VarDescriptor} {k : Token}
    {default : Option VarDefault} (hk : ¬ BeginsOption k) :
    Accepts (pure (.putBack (build default))) id (OptionRound t build k default) := by
  refine (Parses.pure _ _).congr fun step ts rest => ⟨?_, ?_⟩
  · rintro ⟨rfl, rfl⟩
    exact .inr ⟨hk, rfl, rfl⟩
  · rintro (⟨opt, h, -⟩ | ⟨-, rfl, rfl⟩)
    · exact absurd (beginsOption_of_varOption h) hk
    · exact ⟨rfl, rfl⟩

lemma accepts_parseVarOptions (name : String) (t : VarType) (count : Option ℕ) :
    Accepts (parseVarOptions name t count) id fun var ts rest =>
      (∃ opts, Many (VarOption t) opts ts rest ∧ var = ⟨name, t, count, lastDefault opts⟩) ∧
        EndsOptions rest := by
  refine (Parses.loop (B := OptionRound t fun default => ⟨name, t, count, default⟩)
    (F := fun _ _ => False) ?_ (by simp) none).congr fun var ts rest => ?_
  · rintro ⟨token, location⟩ default
    rw [stepMap_id]
    split
    · rename_i ident location heq
      cases heq
      split_ifs with hdefault hskip
      · subst hdefault
        refine accepts_map (accepts_parseDefault t) _ fun step ts rest => ⟨?_, ?_⟩
        · rintro (⟨opt, h, rfl⟩ | ⟨h, -⟩)
          · obtain ⟨d, mid, rfl, hd, rfl⟩ := default_of_varOption h
            exact ⟨d, ⟨mid, rfl, hd⟩, rfl⟩
          · exact absurd (by simp [BeginsOption, kwDefault]) h
        · rintro ⟨d, ⟨mid, rfl, hd⟩, rfl⟩
          exact .inl ⟨some d, .default hd, rfl⟩
      · refine (accepts_skipped ident (Step.again default)).congr fun step ts rest => ⟨?_, ?_⟩
        · rintro ⟨name, rfl, rfl⟩
          rcases hskip with rfl | rfl
          · exact .inl ⟨none, .defaultOption, rfl⟩
          · exact .inl ⟨none, .displayOption, rfl⟩
        · rintro (⟨opt, h, rfl⟩ | ⟨h, -⟩)
          · cases h with
            | default _ => exact absurd rfl hdefault
            | defaultOption => exact ⟨_, rfl, rfl⟩
            | displayOption => exact ⟨_, rfl, rfl⟩
          · rcases hskip with rfl | rfl
            · exact absurd (by simp [BeginsOption, kwDefaultOption]) h
            · exact absurd (by simp [BeginsOption, kwDisplayOption]) h
      · refine accepts_endOptions fun hk => ?_
        simp only [BeginsOption, List.mem_cons, Token.identifier.injEq, reduceCtorEq,
          List.not_mem_nil, or_false] at hk
        exact hk.elim hdefault hskip
    · rename_i heq
      cases heq
      refine (Parses.pure _ _).congr fun step ts rest => ⟨?_, ?_⟩
      · rintro ⟨rfl, rfl⟩
        exact .inl ⟨none, .semicolon, rfl⟩
      · rintro (⟨opt, h, rfl⟩ | ⟨h, -⟩)
        · cases h
          exact ⟨rfl, rfl⟩
        · exact absurd (by simp [BeginsOption]) h
    · rename_i hident hsemicolon
      refine accepts_endOptions fun hk => ?_
      simp only [BeginsOption, List.mem_cons, List.not_mem_nil, or_false] at hk
      rcases hk with rfl | rfl | rfl | rfl
      · exact hident _ _ rfl
      · exact hident _ _ rfl
      · exact hident _ _ rfl
      · exact hsemicolon _ rfl
  · rw [rounds_options]
    refine and_congr_left fun _ => exists_congr fun opts => and_congr_right fun _ => ?_
    rw [lastDefault]
    cases (opts.filterMap id).getLast? <;> rfl

lemma accepts_parseVar : Accepts parseVar id fun var ts rest =>
    VarDecl var (.identifier "VAR" :: ts) rest ∧ EndsOptions rest := by
  have hcount (t : VarType) (name : String) := accepts_parseVarCount.bind_id
    fun count => accepts_parseVarOptions name t count
  have hname (t : VarType) := (accepts_expectIdentifier kwVar).bind_id
    fun name => accepts_token_bind (.char '[') kwVar fun _ => hcount t name
  refine (accepts_parseVarType.bind_id hname).congr fun var ts rest => ⟨?_, ?_⟩
  · rintro ⟨t, mid, ht, name, mid', rfl, mid'', rfl, count, mid₃, hcount, ⟨opts, hopts, rfl⟩, hends⟩
    exact ⟨.mk ht hcount hopts, hends⟩
  · rintro ⟨⟨ht, hcount, hopts⟩, hends⟩
    exact ⟨_, _, ht, _, _, rfl, _, rfl, _, _, hcount, ⟨_, hopts, rfl⟩, hends⟩

/-! ### Descriptors and files -/

/-- The version so far and the variables so far, with one more item. -/
def addItem (state : Option UInt16 × List VarDescriptor) :
    UInt16 ⊕ VarDescriptor → Option UInt16 × List VarDescriptor
  | .inl version => (some version, state.2)
  | .inr var => (state.1, state.2 ++ [var])

/-- One round over the items of a descriptor. After a variable comes what ends its options. -/
def ItemRound (name : String) (k : Token) (state : Option UInt16 × List VarDescriptor) :
    Lang Token (Step (Option UInt16 × List VarDescriptor) StateDescriptor) := fun step ts rest =>
  (∃ item, Item item (k :: ts) rest ∧ (item.isRight → EndsOptions rest) ∧
      step = .again (addItem state item)) ∨
    k = .char '\x7d' ∧ ∃ version, state.1 = some version ∧
      step = .done ⟨name, version, state.2⟩ ∧ ts = rest

/-- The items of a descriptor begin with tokens that begin no option, and so does its end. -/
lemma endsOptions_of_items {items : List (UInt16 ⊕ VarDescriptor)}
    (h : Many Item items ts (.char '\x7d' :: rest)) : EndsOptions ts := by
  generalize hts : Token.char '\x7d' :: rest = ks at h
  cases h with
  | nil => exact ⟨_, _, hts.symm, by simp [BeginsOption]⟩
  | cons h _ =>
    cases h with
    | version _ => exact ⟨_, _, rfl, by simp [BeginsOption]⟩
    | var h =>
      cases h
      exact ⟨_, _, rfl, by simp [BeginsOption]⟩

lemma rounds_items {name : String} {state : Option UInt16 × List VarDescriptor}
    {d : StateDescriptor} :
    Rounds (ItemRound name) (fun _ _ => False) state d ts rest ↔
      ∃ items version, Many Item items ts (.char '\x7d' :: rest) ∧
        (items.filterMap Sum.getLeft?).getLast?.or state.1 = some version ∧
        d = ⟨name, version, state.2 ++ items.filterMap Sum.getRight?⟩ := by
  -- one more item in front: its version is passed on, its variable comes first
  have hversion (item : UInt16 ⊕ VarDescriptor) (items : List (UInt16 ⊕ VarDescriptor))
      (state : Option UInt16 × List VarDescriptor) :
      ((item :: items).filterMap Sum.getLeft?).getLast?.or state.1 =
        (items.filterMap Sum.getLeft?).getLast?.or (addItem state item).1 := by
    cases item with
    | inl version =>
      rw [List.filterMap_cons]
      simp only [Sum.getLeft?, List.getLast?_cons, addItem]
      cases (items.filterMap Sum.getLeft?).getLast? <;> rfl
    | inr var => rfl
  have hvars (item : UInt16 ⊕ VarDescriptor) (items : List (UInt16 ⊕ VarDescriptor))
      (state : Option UInt16 × List VarDescriptor) :
      state.2 ++ (item :: items).filterMap Sum.getRight? =
        (addItem state item).2 ++ items.filterMap Sum.getRight? := by
    cases item with
    | inl version => rfl
    | inr var => simp [addItem]
  constructor
  · intro h
    induction h with
    | eof h => exact h.elim
    | again h _ ih =>
      rcases h with ⟨item, hitem, -, heq⟩ | ⟨-, _, -, heq, -⟩
      · cases heq
        obtain ⟨items, version, hitems, hv, rfl⟩ := ih
        exact ⟨item :: items, version, .cons hitem hitems, (hversion _ _ _).trans hv, by rw [hvars]⟩
      · cases heq
    | done h =>
      rcases h with ⟨_, -, -, heq⟩ | ⟨rfl, version, hv, heq, rfl⟩
      · cases heq
      · cases heq
        exact ⟨[], version, .nil, hv, by simp⟩
    | putBack h => rcases h with ⟨_, -, -, heq⟩ | ⟨-, _, -, heq, -⟩ <;> cases heq
  · rintro ⟨items, version, hitems, hv, rfl⟩
    generalize hend : Token.char '\x7d' :: rest = ks at hitems
    induction hitems generalizing state with
    | nil =>
      subst hend
      refine .done (.inr ⟨rfl, version, hv, ?_, rfl⟩)
      simp
    | @cons item items ts mid ks hitem hitems ih =>
      subst hend
      obtain ⟨k, ts, rfl⟩ : ∃ k ts', ts = k :: ts' := by
        rcases hitem with _ | ⟨⟨⟩⟩ <;> exact ⟨_, _, rfl⟩
      have hrest := ih ((hversion _ _ _).symm.trans hv) rfl
      rw [← hvars] at hrest
      exact .again (.inl ⟨item, hitem, fun _ => endsOptions_of_items hitems, rfl⟩) hrest

lemma version_of_item {item : UInt16 ⊕ VarDescriptor}
    (h : Item item (.identifier "VERSION" :: ts) rest) :
    ∃ version, Numeral parseU16 version ts rest ∧ item = .inl version := by
  generalize hk : Token.identifier "VERSION" :: ts = ks at h
  cases h with
  | version h =>
    cases hk
    exact ⟨_, h, rfl⟩
  | var h =>
    cases h
    exact absurd hk (by simp)

lemma var_of_item {item : UInt16 ⊕ VarDescriptor} (h : Item item (.identifier "VAR" :: ts) rest) :
    ∃ var, VarDecl var (.identifier "VAR" :: ts) rest ∧ item = .inr var := by
  generalize hk : Token.identifier "VAR" :: ts = ks at h
  cases h with
  | version h => exact absurd hk (by simp)
  | var h => exact ⟨_, hk ▸ h, rfl⟩

lemma accepts_parseStatedesc : Accepts parseStatedesc id fun d ts rest =>
    Statedesc d (.identifier "STATEDESC" :: ts) rest := by
  refine ((accepts_expectIdentifier kwStatedesc).bind_id (M := fun name d ts rest =>
    ∃ mid, ts = .char '\x7b' :: mid ∧ ∃ items version, Many Item items mid (.char '\x7d' :: rest) ∧
      (items.filterMap Sum.getLeft?).getLast? = some version ∧
      d = ⟨name, version, items.filterMap Sum.getRight?⟩) fun name =>
      accepts_token_bind _ _ fun start => ?_).congr fun d ts rest => ⟨?_, ?_⟩
  · refine (Parses.loop (B := ItemRound name) (F := fun _ _ => False) ?_ (by simp)
      (none, [])).congr fun d ts rest => ?_
    · rintro ⟨token, location⟩ state
      rw [stepMap_id]
      split
      · rename_i ident location heq
        cases heq
        split_ifs with hversion hvar
        · subst hversion
          refine accepts_map (accepts_expectNumber parseU16 kwStatedesc) _
            fun step ts rest => ⟨?_, ?_⟩
          · rintro (⟨item, h, -, rfl⟩ | ⟨h, -⟩)
            · obtain ⟨version, hv, rfl⟩ := version_of_item h
              exact ⟨version, hv, rfl⟩
            · cases h
          · rintro ⟨version, hv, rfl⟩
            exact .inl ⟨.inl version, .version hv, nofun, rfl⟩
        · subst hvar
          refine accepts_map accepts_parseVar _ fun step ts rest => ⟨?_, ?_⟩
          · rintro (⟨item, h, hends, rfl⟩ | ⟨h, -⟩)
            · obtain ⟨var, hv, rfl⟩ := var_of_item h
              exact ⟨var, ⟨hv, hends rfl⟩, rfl⟩
            · cases h
          · rintro ⟨var, ⟨hv, hends⟩, rfl⟩
            exact .inl ⟨.inr var, .var hv, fun _ => hends, rfl⟩
        · refine Parses.fail_of fun step ts rest => ?_
          rintro (⟨item, h, -⟩ | ⟨h, -⟩)
          · cases h with
            | version _ => exact hversion rfl
            | var h =>
              cases h
              exact hvar rfl
          · cases h
      · rename_i heq
        cases heq
        split
        · rename_i version hv
          refine (Parses.pure _ _).congr fun step ts rest => ⟨?_, ?_⟩
          · rintro ⟨rfl, rfl⟩
            exact .inr ⟨rfl, version, hv, rfl, rfl⟩
          · rintro (⟨item, h, -⟩ | ⟨-, version', hv', rfl, rfl⟩)
            · rcases h with _ | ⟨⟨⟩⟩
            · rw [hv] at hv'
              cases hv'
              exact ⟨rfl, rfl⟩
        · rename_i hv
          refine Parses.fail_of fun step ts rest => ?_
          rintro (⟨item, h, -⟩ | ⟨-, version', hv', -⟩)
          · rcases h with _ | ⟨⟨⟩⟩
          · rw [hv] at hv'
            cases hv'
      · rename_i hident hclose heq
        cases heq
        refine Parses.fail_of fun step ts rest => ?_
        rintro (⟨item, h, -⟩ | ⟨rfl, -⟩)
        · cases h with
          | version _ => exact hident _ rfl
          | var h =>
            cases h
            exact hident _ rfl
        · exact hclose rfl
    · rw [rounds_items]
      simp
  · rintro ⟨name, mid, rfl, mid', rfl, items, version, hitems, hv, rfl⟩
    exact .mk hitems hv
  · rintro ⟨hitems, hv⟩
    exact ⟨_, _, rfl, _, rfl, _, _, hitems, hv, rfl⟩

def FileRound (k : Token) (ds : List StateDescriptor) :
    Lang Token (Step (List StateDescriptor) (List StateDescriptor)) := fun step ts rest =>
  ∃ d, Statedesc d (k :: ts) rest ∧ step = .again (ds ++ [d])

lemma rounds_file {ds ds' : List StateDescriptor} :
    Rounds FileRound (fun ds ds' => ds' = ds) ds ds' ts rest ↔
      ∃ more, Many Statedesc more ts [] ∧ rest = [] ∧ ds' = ds ++ more := by
  constructor
  · intro h
    induction h with
    | eof h => exact ⟨[], .nil, rfl, by simp [h]⟩
    | again h _ ih =>
      obtain ⟨d, hd, heq⟩ := h
      cases heq
      obtain ⟨more, hmore, rfl, rfl⟩ := ih
      exact ⟨d :: more, .cons hd hmore, rfl, by simp⟩
    | done h =>
      obtain ⟨d, -, heq⟩ := h
      cases heq
    | putBack h =>
      obtain ⟨d, -, heq⟩ := h
      cases heq
  · rintro ⟨more, hmore, rfl, rfl⟩
    generalize hend : ([] : List Token) = ks at hmore
    induction hmore generalizing ds with
    | nil =>
      subst hend
      exact .eof (by simp)
    | @cons d more ts mid ks hd _ ih =>
      subst hend
      obtain ⟨k, ts, rfl⟩ : ∃ k ts', ts = k :: ts' := by
        cases hd
        exact ⟨_, _, rfl⟩
      have hrest := @ih (ds ++ [d]) rfl
      rw [List.append_assoc, List.singleton_append] at hrest
      exact .again ⟨d, hd, rfl⟩ hrest

lemma accepts_parseAll : Accepts parseAll id fun ds ts rest => File ds ts ∧ rest = [] := by
  refine (Parses.loop (B := FileRound) (F := fun ds ds' => ds' = ds) ?_ (by simp [eq_comm])
    []).congr fun ds ts rest => ?_
  · rintro ⟨token, location⟩ ds
    rw [stepMap_id]
    split
    · rename_i ident location heq
      cases heq
      split_ifs with hident
      · subst hident
        exact accepts_map accepts_parseStatedesc _ fun step ts rest => Iff.rfl
      · refine Parses.fail_of fun step ts rest => ?_
        rintro ⟨d, h, -⟩
        cases h
        exact hident rfl
    · rename_i hident heq
      cases heq
      refine Parses.fail_of fun step ts rest => ?_
      rintro ⟨d, h, -⟩
      cases h
      exact hident _ rfl
  · rw [rounds_file]
    constructor
    · rintro ⟨more, hmore, rfl, rfl⟩
      exact ⟨hmore, rfl⟩
    · rintro ⟨hds, rfl⟩
      exact ⟨ds, hds, rfl, rfl⟩

/-- **The parser accepts exactly the files of the grammar**: for every sequence of tokens, at
whatever locations, it returns descriptors if and only if the grammar derives the sequence with
these descriptors. -/
theorem parse_iff_derives (ts : List (Token × Location)) (ds : List StateDescriptor) :
    (parseAll.run ts).map Prod.fst = .ok ds ↔ File ds (ts.map Prod.fst) := by
  constructor
  · intro h
    obtain ⟨⟨ds', rest⟩, hr, rfl⟩ := Fallible.map_eq_ok.1 h
    exact (accepts_parseAll.sound hr).1
  · intro h
    obtain ⟨ds', rest, hr, rfl, -⟩ := accepts_parseAll.complete ⟨h, rfl⟩
    rw [hr]
    rfl

end Moulars.Sdl
