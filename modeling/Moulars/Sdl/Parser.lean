import Mathlib.Data.List.TakeWhile
import Moulars.Lib.Number
import Moulars.Lib.TokenParser
import Moulars.Sdl.Descriptor

/-!
The SDL parser: lines to tokens, tokens to state descriptors.

The source reads a line whenever it has no token left. Since a token is only looked at when it is
taken, all the lines may as well be split first. Errors carry the data their messages are made of.
-/

namespace Moulars.Sdl

open Lib Lib.Wire Lib.Text Lib.Number Lib.TokenParser
open Plasma

/-! ### Tokens -/

inductive Token
  | number (value : String)
  | identifier (ident : String)
  | typeReference (ident : String)
  | stringLiteral (literal : String)
  | char (c : Char)
  | invalid (c : Char)
  | incompleteString
  deriving DecidableEq

structure Location where
  line : ℕ
  column : ℕ
  deriving DecidableEq

/-- What one round over a line finds: a token or none, and either the end of the line's
tokens or the number of further bytes the token took. -/
inductive Scanned
  | stop (token : Option Token)
  | go (token : Option Token) (taken : ℕ)
  deriving DecidableEq

/-- Bytes known to be ASCII, as text. -/
def asciiText (bs : Bytes) : String := String.ofList (bs.map fun b => Char.ofNat b.toNat)

def isNumeric (b : UInt8) : Bool := (48 ≤ b && b ≤ 57) || b == 46

def isLetter (b : UInt8) : Bool := (65 ≤ b && b ≤ 90) || (97 ≤ b && b ≤ 122) || b == 95

def isWord (b : UInt8) : Bool := isLetter b || (48 ≤ b && b ≤ 57) || b == 45

/-- The token that starts with `b`, `rest` being what follows on the line. -/
def scanOne (b : UInt8) (rest : Bytes) : Scanned :=
  let c := Char.ofNat b.toNat
  -- comments and whitespace
  if c = '#' then .stop none
  else if c ∈ [' ', '\t', '\r', '\n'] then .go none 0
  else if c.isDigit ∨ c = '-' then
    let word := rest.takeWhile isNumeric
    .go (some (.number (asciiText (b :: word)))) word.length
  -- a reference to a descriptor
  else if c = '$' then
    let word := rest.takeWhile isWord
    if word = [] then .go (some (.invalid c)) 0
    else .go (some (.typeReference (asciiText word))) word.length
  else if isLetter b then
    let word := rest.takeWhile isWord
    .go (some (.identifier (asciiText (b :: word)))) word.length
  else if c ∈ ['(', ')', '[', ']', '\x7b', '\x7d', '=', ',', ';'] then .go (some (.char c)) 0
  else if c = '"' then
    let literal := rest.takeWhile (· ≠ 34)
    if literal.length < rest.length then
      .go (some (.stringLiteral (String.ofList (fromUtf8Lossy literal)))) (literal.length + 1)
    else .stop (some .incompleteString)
  else .go (some (.invalid c)) 0

/-- The tokens of a line from the byte at `start` on, in at most `n` rounds. -/
def scan (line : ℕ) : ℕ → ℕ → Bytes → List (Token × Location)
  | n + 1, start, b :: rest => match scanOne b rest with
    | .stop token => token.toList.map fun t => (t, ⟨line, start + 1⟩)
    | .go token taken => (token.toList.map fun t => (t, ⟨line, start + 1⟩)) ++
        scan line n (start + 1 + taken) (rest.drop taken)
  | _, _, _ => []

/-- A round takes a byte, so that no line needs more rounds than it has bytes. -/
lemma scan_eq (line : ℕ) {n m start : ℕ} {bs : Bytes} (hn : bs.length ≤ n) (hm : bs.length ≤ m) :
    scan line n start bs = scan line m start bs := by
  induction n generalizing m start bs with
  | zero =>
    obtain rfl : bs = [] := List.length_eq_zero_iff.1 (by omega)
    cases m <;> rfl
  | succ n ih =>
    cases bs with
    | nil => cases m <;> rfl
    | cons b rest =>
      simp only [List.length_cons] at hn hm
      obtain ⟨m, rfl⟩ : ∃ k, m = k + 1 := ⟨m - 1, by omega⟩
      rw [scan, scan]
      cases scanOne b rest with
      | stop token => rfl
      | go token taken =>
        have hlen : (rest.drop taken).length ≤ rest.length := by simp
        exact congrArg _ (ih (by omega) (by omega))

/-- The lines of the input, the first of which begins with `line`, in reverse. -/
def linesFrom (line : Bytes) : Bytes → List Bytes
  | [] => if line = [] then [] else [line.reverse]
  | b :: rest =>
    if b = 10 then (b :: line).reverse :: linesFrom [] rest else linesFrom (b :: line) rest

/-- `read_until(b'\n')`, over and over. -/
def lines (file : Bytes) : List Bytes := linesFrom [] file

/-- All the tokens of a file, with their locations. -/
def tokens (file : Bytes) : List (Token × Location) :=
  (lines file).zipIdx.flatMap fun line => scan (line.2 + 1) line.1.length 0 line.1

/-! ### Parsing -/

inductive ParseError
  | unexpected (token : Token) (location : Location)
  | unexpectedEof (context : String)
  | missingVersion (name : String) (line : ℕ)
  | unknownType (ident : String) (location : Location)
  | invalidVarCount (value : String) (location : Location)
  | invalidNumber (value : String) (location : Location)
  | invalidBoolean (value : String) (location : Location)
  | unexpectedKey (ident : String) (location : Location)
  | incorrectElements (type : String) (location : Location)
  | noDefault (type : String)
  deriving DecidableEq

abbrev Parser (α : Type) := TokenParser.Parser (Token × Location) ParseError α

namespace Parser

open TokenParser.Parser (Step next fail loop)

def kwStatedesc : String := "STATEDESC"
def kwVar : String := "VAR"
def kwVersion : String := "VERSION"
def kwDefault : String := "DEFAULT"
def kwDefaultOption : String := "DEFAULTOPTION"
def kwDisplayOption : String := "DISPLAYOPTION"

def expectIdentifier (context : String) : Parser String := do
  match ← next with
  | some (.identifier ident, _) => pure ident
  | some (token, location) => fail (.unexpected token location)
  | none => fail (.unexpectedEof context)

def expectToken (expected : Token) (context : String) : Parser Location := do
  match ← next with
  | some (token, location) =>
    if token = expected then pure location else fail (.unexpected token location)
  | none => fail (.unexpectedEof context)

def expectStringLiteral (context : String) : Parser String := do
  match ← next with
  | some (.stringLiteral value, _) => pure value
  | some (.identifier value, _) => pure value
  | some (token, location) => fail (.unexpected token location)
  | none => fail (.unexpectedEof context)

/-- A number, or what `paren` makes of an opening parenthesis. -/
def expectNumberOr {α : Type} (parse : String → Option α) (context : String)
    (paren : Location → Parser α) : Parser α := do
  match ← next with
  | some (.number value, location) =>
    match parse value with
    | some n => pure n
    | none => fail (.invalidNumber value location)
  | some (.char '(', location) => paren location
  | some (token, location) => fail (.unexpected token location)
  | none => fail (.unexpectedEof context)

def expectNumber {α : Type} (parse : String → Option α) (context : String) : Bool → Parser α
  | false => expectNumberOr parse context fun location => fail (.unexpected (.char '(') location)
  | true => expectNumberOr parse context fun _ => do
    let inner ← expectNumberOr parse context fun location =>
      fail (.unexpected (.char '(') location)
    let _ ← expectToken (.char ')') context
    pure inner

def expectBoolOr (context : String) (paren : Location → Parser Bool) : Parser Bool := do
  match ← next with
  | some (.identifier value, location) =>
    if value.toLower = "false" then pure false
    else if value.toLower = "true" then pure true
    else fail (.invalidBoolean value location)
  | some (.number value, location) =>
    if value = "0" then pure false
    else if value = "1" then pure true
    else fail (.invalidBoolean value location)
  | some (.char '(', location) => paren location
  | some (token, location) => fail (.unexpected token location)
  | none => fail (.unexpectedEof context)

def expectBool (context : String) : Parser Bool :=
  expectBoolOr context fun _ => do
    let inner ← expectBoolOr context fun location => fail (.unexpected (.char '(') location)
    let _ ← expectToken (.char ')') context
    pure inner

/-- Numbers separated by commas in parentheses, and where they start. -/
def expectSequence {α : Type} (parse : String → Option α) (context : String) :
    Parser (List α × Location) := do
  let start ← expectToken (.char '(') context
  let first ← expectNumber parse context false
  loop (fun token result => match token with
      | (.char ',', _) => do
        let value ← expectNumber parse context false
        pure (.again (result ++ [value]))
      | (.char ')', _) => pure (.done (result, start))
      | (token, location) => fail (.unexpected token location))
    (fun _ => .error (.unexpectedEof context)) [first]

/-! The numeric types of the source. -/

def parseU8 (s : String) : Option UInt8 := (parseUnsigned 0xFF s).map UInt8.ofNat
def parseU16 (s : String) : Option UInt16 := (parseUnsigned 0xFFFF s).map UInt16.ofNat
def parseU32 (s : String) : Option UInt32 := (parseUnsigned 0xFFFFFFFF s).map UInt32.ofNat
def parseI16 (s : String) : Option Int16 := (parseSigned (-0x8000) 0x7FFF s).map Int16.ofInt
def parseI32 (s : String) : Option Int32 :=
  (parseSigned (-0x80000000) 0x7FFFFFFF s).map Int32.ofInt
def parseUsize (s : String) : Option ℕ := parseUnsigned 0xFFFFFFFFFFFFFFFF s
def parseF32 (s : String) : Option F32 := (FloatFormat.single.parse s).map UInt32.ofNat
def parseF64 (s : String) : Option F64 := (FloatFormat.double.parse s).map UInt64.ofNat

/-- A default in parentheses with as many elements as `build` wants. -/
def expectElements {α : Type} (parse : String → Option α) (type : String)
    (build : List α → Option VarDefault) : Parser (Option VarDefault) := do
  let (values, location) ← expectSequence parse kwDefault
  match build values with
  | some default => pure (some default)
  | none => fail (.incorrectElements type location)

def parseDefaultValue : VarType → Parser (Option VarDefault)
  | .simple .bool => do
    let value ← expectBool kwDefault
    pure (some (.bool value))
  | .simple .byte => do
    let value ← expectNumber parseU8 kwDefault true
    pure (some (.byte value))
  | .simple .double => do
    let value ← expectNumber parseF64 kwDefault true
    pure (some (.double value))
  | .simple .float => do
    let value ← expectNumber parseF32 kwDefault true
    pure (some (.float value))
  | .simple .int => do
    let value ← expectNumber parseI32 kwDefault true
    pure (some (.int value))
  | .simple .short => do
    let value ← expectNumber parseI16 kwDefault true
    pure (some (.short value))
  | .simple .string32 => do
    let value ← expectStringLiteral kwDefault
    pure (some (.string32 value))
  | .simple .time => do
    let secs ← expectNumber parseU32 kwDefault true
    pure (some (.time (UnifiedTime.fromSecs secs)))
  | .simple .key => do
    match ← next with
    | some (.identifier ident, location) =>
      if ident = "nil" then pure none else fail (.unexpectedKey ident location)
    | some (token, location) => fail (.unexpected token location)
    | none => fail (.unexpectedEof kwDefault)
  | .simple .point3 => expectElements parseF32 "Point3" fun
    | [x, y, z] => some (.vector3 ⟨x, y, z⟩)
    | _ => none
  -- the message names the other type here, too
  | .simple .vector3 => expectElements parseF32 "Point3" fun
    | [x, y, z] => some (.vector3 ⟨x, y, z⟩)
    | _ => none
  | .simple .quat => expectElements parseF32 "Quaternion" fun
    | [x, y, z, w] => some (.quat ⟨x, y, z, w⟩)
    | _ => none
  | .simple .rgb => expectElements parseF32 "RGB" fun
    | [r, g, b] => some (.rgba ⟨r, g, b, F32.one⟩)
    | _ => none
  | .simple .rgb8 => expectElements parseU8 "RGB8" fun
    | [r, g, b] => some (.rgba8 ⟨r, g, b, 255⟩)
    | _ => none
  | .simple .rgba => expectElements parseF32 "RGBA" fun
    | [r, g, b, a] => some (.rgba ⟨r, g, b, a⟩)
    | _ => none
  | .simple .rgba8 => expectElements parseU8 "RGBA8" fun
    | [r, g, b, a] => some (.rgba8 ⟨r, g, b, a⟩)
    | _ => none
  | .simple .ageTimeOfDay => fail (.noDefault "AgeTimeOfDay")
  | .simple .creatable => fail (.noDefault "Creatable")
  | .stateDesc _ => fail (.noDefault "StateDesc")

def parseDefault (varType : VarType) : Parser (Option VarDefault) := do
  let _ ← expectToken (.char '=') kwDefault
  parseDefaultValue varType

/-- The type an identifier names, in whatever case. -/
def namedType (ident : String) : Option SimpleType :=
  match ident.toLower with
  | "agetimeofday" => some .ageTimeOfDay
  | "bool" => some .bool
  | "byte" => some .byte
  | "creatable" => some .creatable
  | "message" => some .creatable
  | "double" => some .double
  | "float" => some .float
  | "int" => some .int
  | "plkey" => some .key
  | "point3" => some .point3
  | "quat" => some .quat
  | "quaternion" => some .quat
  | "rgb" => some .rgb
  | "rgb8" => some .rgb8
  | "rgba" => some .rgba
  | "rgba8" => some .rgba8
  | "short" => some .short
  | "string32" => some .string32
  | "time" => some .time
  | "vector3" => some .vector3
  | _ => none

def parseVarType : Parser VarType := do
  match ← next with
  | some (.identifier ident, location) =>
    match namedType ident with
    | some t => pure (.simple t)
    | none => fail (.unknownType ident location)
  | some (.typeReference ident, _) => pure (.stateDesc ident)
  | some (token, location) => fail (.unexpected token location)
  | none => fail (.unexpectedEof kwVar)

def parseVarCount : Parser (Option ℕ) := do
  match ← next with
  | some (.number value, location) =>
    match parseUsize value with
    | some count => do
      let _ ← expectToken (.char ']') kwVar
      pure (some count)
    | none => fail (.invalidVarCount value location)
  | some (.char ']', _) => pure none
  | some (token, location) => fail (.unexpected token location)
  | none => fail (.unexpectedEof kwVar)

/-- The options after a variable: the default counts, the others are skipped, and a token
that is none of them belongs to what comes next. -/
def parseVarOptions (varName : String) (varType : VarType) (varCount : Option ℕ) :
    Parser VarDescriptor :=
  loop (fun token default => match token with
      | (.identifier ident, _) =>
        if ident = kwDefault then do
          let default ← parseDefault varType
          pure (.again default)
        else if ident = kwDefaultOption ∨ ident = kwDisplayOption then do
          let _ ← expectToken (.char '=') ident
          let _ ← expectIdentifier ident
          pure (.again default)
        else pure (.putBack ⟨varName, varType, varCount, default⟩)
      | (.char ';', _) => pure (.again default)
      | _ => pure (.putBack ⟨varName, varType, varCount, default⟩))
    (fun _ => .error (.unexpectedEof kwVar)) none

def parseVar : Parser VarDescriptor := do
  let varType ← parseVarType
  let varName ← expectIdentifier kwVar
  let _ ← expectToken (.char '[') kwVar
  let varCount ← parseVarCount
  parseVarOptions varName varType varCount

def parseStatedesc : Parser StateDescriptor := do
  let name ← expectIdentifier kwStatedesc
  let start ← expectToken (.char '\x7b') kwStatedesc
  loop (fun token (state : Option UInt16 × List VarDescriptor) => match token with
      | (.identifier ident, location) =>
        if ident = kwVersion then do
          let version ← expectNumber parseU16 kwStatedesc false
          pure (.again (some version, state.2))
        else if ident = kwVar then do
          let var ← parseVar
          pure (.again (state.1, state.2 ++ [var]))
        else fail (.unexpected (.identifier ident) location)
      | (.char '\x7d', _) => match state.1 with
        | some version => pure (.done ⟨name, version, state.2⟩)
        | none => fail (.missingVersion name start.line)
      | (token, location) => fail (.unexpected token location))
    (fun _ => .error (.unexpectedEof kwStatedesc)) (none, [])

def parseAll : Parser (List StateDescriptor) :=
  loop (fun token descriptors => match token with
      | (.identifier ident, location) =>
        if ident = kwStatedesc then do
          let desc ← parseStatedesc
          pure (.again (descriptors ++ [desc]))
        else fail (.unexpected (.identifier ident) location)
      | (token, location) => fail (.unexpected token location))
    (fun descriptors => .ok descriptors) []

def parse (file : Bytes) : Except ParseError (List StateDescriptor) :=
  (parseAll.run (tokens file)).map Prod.fst

example : parse "STATEDESC basic_var \x7b VERSION 1 VAR BOOL foobar[1] \x7d".toUTF8.data.toList =
    .ok [⟨"basic_var", 1, [⟨"foobar", .simple .bool, some 1, none⟩]⟩] := by decide +kernel

/-! ### What the parser returns -/

def IsAscii (s : String) : Prop := ∀ c ∈ s.toList, c.toNat < 0x80

/-- The identifiers among the tokens are ASCII. -/
def Good (token : Token × Location) : Prop := ∀ ident, token.1 = .identifier ident → IsAscii ident

lemma isAscii_asciiText {bs : Bytes} (h : ∀ b ∈ bs, b.toNat < 0x80) :
    IsAscii (asciiText bs) := by
  intro c hc
  rw [asciiText, String.toList_ofList, List.mem_map] at hc
  obtain ⟨b, hb, rfl⟩ := hc
  rw [toNat_ofNat_byte]
  exact h b hb

lemma lt_of_isLetter : ∀ b : UInt8, isLetter b = true → b.toNat < 0x80 :=
  uint8_all (by decide +kernel)

lemma lt_of_isWord : ∀ b : UInt8, isWord b = true → b.toNat < 0x80 :=
  uint8_all (by decide +kernel)

lemma isAscii_word {b : UInt8} (rest : Bytes) (h : isLetter b = true) :
    IsAscii (asciiText (b :: rest.takeWhile isWord)) := by
  refine isAscii_asciiText fun a ha => ?_
  rcases List.mem_cons.1 ha with rfl | ha
  · exact lt_of_isLetter a h
  · exact lt_of_isWord a (List.mem_takeWhile_imp ha)

/-- The token of one round of the tokenizer, if there is one. -/
def Scanned.token : Scanned → Option Token
  | .stop token => token
  | .go token _ => token

lemma scanOne_identifier {b : UInt8} {rest : Bytes} {ident : String}
    (h : Scanned.token (scanOne b rest) = some (.identifier ident)) : IsAscii ident := by
  unfold scanOne at h
  simp only at h
  split_ifs at h <;> simp only [Scanned.token, Option.some.injEq, reduceCtorEq] at h
  rename_i hletter
  cases h
  exact isAscii_word rest hletter

lemma good_scan (line : ℕ) {n start : ℕ} {bs : Bytes} : ∀ t ∈ scan line n start bs, Good t := by
  induction n generalizing start bs with
  | zero => simp [scan]
  | succ n ih =>
    cases bs with
    | nil => simp [scan]
    | cons b rest =>
      have hone : ∀ ident, Scanned.token (scanOne b rest) = some (.identifier ident) →
          IsAscii ident := fun _ => scanOne_identifier
      rw [scan]
      cases hs : scanOne b rest with
      | stop token =>
        rw [hs] at hone
        rintro t ht ident hident
        obtain ⟨tok, htok, rfl⟩ := List.mem_map.1 ht
        obtain rfl : tok = .identifier ident := hident
        exact hone ident (Option.mem_toList.1 htok)
      | go token taken =>
        rw [hs] at hone
        rintro t ht ident hident
        rcases List.mem_append.1 ht with ht | ht
        · obtain ⟨tok, htok, rfl⟩ := List.mem_map.1 ht
          obtain rfl : tok = .identifier ident := hident
          exact hone ident (Option.mem_toList.1 htok)
        · exact ih t ht ident hident

lemma good_tokens (file : Bytes) : ∀ t ∈ tokens file, Good t := by
  intro t ht
  obtain ⟨line, -, ht⟩ := List.mem_flatMap.1 ht
  exact good_scan _ t ht

open TokenParser.Parser (Ensures)

/-- A parser whose value does not matter. -/
abbrev Keeps {α : Type} (p : Parser α) : Prop := Ensures Good p fun _ => True

lemma ensures_expectIdentifier (context : String) :
    Ensures Good (expectIdentifier context) IsAscii := by
  refine Ensures.next.bind fun o ho => ?_
  split
  · exact .pure (ho _ rfl _ rfl)
  · exact .fail
  · exact .fail

lemma keeps_expectToken (expected : Token) (context : String) :
    Keeps (expectToken expected context) := by
  refine Ensures.next.bind fun o _ => ?_
  split
  · split
    · exact .pure trivial
    · exact .fail
  · exact .fail

lemma keeps_expectStringLiteral (context : String) : Keeps (expectStringLiteral context) := by
  refine Ensures.next.bind fun o _ => ?_
  split
  · exact .pure trivial
  · exact .pure trivial
  · exact .fail
  · exact .fail

section Numbers

variable {α : Type} (parse : String → Option α) (context : String)

lemma keeps_expectNumberOr {paren : Location → Parser α} (h : ∀ l, Keeps (paren l)) :
    Keeps (expectNumberOr parse context paren) := by
  refine Ensures.next.bind fun o _ => ?_
  split
  · split
    · exact .pure trivial
    · exact .fail
  · exact h _
  · exact .fail
  · exact .fail

lemma keeps_expectNumber (seqOk : Bool) : Keeps (expectNumber parse context seqOk) := by
  cases seqOk with
  | false => exact keeps_expectNumberOr parse context fun _ => .fail
  | true =>
    refine keeps_expectNumberOr parse context fun _ => ?_
    refine (keeps_expectNumberOr parse context fun _ => .fail).bind fun inner _ => ?_
    exact (keeps_expectToken _ _).bind fun _ _ => .pure trivial

lemma keeps_expectSequence : Keeps (expectSequence parse context) := by
  refine (keeps_expectToken _ _).bind fun start _ => ?_
  refine (keeps_expectNumber parse context false).bind fun first _ => ?_
  refine Ensures.loop (I := fun _ => True) trivial ?_ fun _ _ _ _ => trivial
  rintro ⟨token, location⟩ result - -
  split
  · exact (keeps_expectNumber parse context false).bind fun _ _ => .pure trivial
  · exact .pure trivial
  · exact .fail

lemma ensures_expectElements (type : String) {build : List α → Option VarDefault}
    {P : VarDefault → Prop} (h : ∀ vs d, build vs = some d → P d) :
    Ensures Good (expectElements parse type build) fun o => ∀ d ∈ o, P d := by
  refine (keeps_expectSequence parse kwDefault).bind fun v _ => ?_
  dsimp only
  split
  · refine .pure ?_
    rintro _ ⟨⟩
    exact h _ _ ‹_›
  · exact .fail

end Numbers

lemma keeps_expectBoolOr (context : String) {paren : Location → Parser Bool}
    (h : ∀ l, Keeps (paren l)) : Keeps (expectBoolOr context paren) := by
  refine Ensures.next.bind fun o _ => ?_
  split
  · split_ifs
    · exact .pure trivial
    · exact .pure trivial
    · exact .fail
  · split_ifs
    · exact .pure trivial
    · exact .pure trivial
    · exact .fail
  · exact h _
  · exact .fail
  · exact .fail

lemma keeps_expectBool (context : String) : Keeps (expectBool context) := by
  refine keeps_expectBoolOr context fun _ => ?_
  refine (keeps_expectBoolOr context fun _ => .fail).bind fun inner _ => ?_
  exact (keeps_expectToken _ _).bind fun _ _ => .pure trivial

lemma ensures_parseDefaultValue (varType : VarType) :
    Ensures Good (parseDefaultValue varType) fun o => ∀ d ∈ o, varType.takes d = true := by
  cases varType with
  | stateDesc name => exact .fail
  | simple t =>
    cases t with
    | ageTimeOfDay | creatable => exact .fail
    | bool => exact (keeps_expectBool _).bind fun _ _ => .pure (by rintro _ ⟨⟩; rfl)
    | byte | double | float | int | short | time =>
      exact (keeps_expectNumber _ _ true).bind fun _ _ => .pure (by rintro _ ⟨⟩; rfl)
    | string32 =>
      exact (keeps_expectStringLiteral _).bind fun _ _ => .pure (by rintro _ ⟨⟩; rfl)
    | point3 | quat | rgb | rgb8 | rgba | rgba8 | vector3 =>
      rw [parseDefaultValue]
      refine ensures_expectElements _ _ fun vs d h => ?_
      split at h <;> cases h
      rfl
    | key =>
      refine Ensures.next.bind fun o _ => ?_
      split
      · split
        · exact .pure (by rintro _ ⟨⟩)
        · exact .fail
      · exact .fail
      · exact .fail

lemma ensures_parseVarOptions (varName : String) (varType : VarType) (varCount : Option ℕ) :
    Ensures Good (parseVarOptions varName varType varCount) VarDescriptor.WellTyped := by
  refine Ensures.loop (I := fun default => ∀ d ∈ default, varType.takes d = true) (by simp) ?_
    fun _ _ _ h => by cases h
  rintro ⟨token, location⟩ default - hdefault
  split
  · split_ifs
    · refine Ensures.bind ?_ fun _ h => .pure h
      exact (keeps_expectToken _ _).bind fun _ _ => ensures_parseDefaultValue varType
    · refine (keeps_expectToken _ _).bind fun _ _ => ?_
      exact (ensures_expectIdentifier _).bind fun _ _ => .pure hdefault
    · exact .pure hdefault
  · exact .pure hdefault
  · exact .pure hdefault

lemma keeps_parseVarType : Keeps parseVarType := by
  refine Ensures.next.bind fun o _ => ?_
  split
  · split
    · exact .pure trivial
    · exact .fail
  · exact .pure trivial
  · exact .fail
  · exact .fail

lemma keeps_parseVarCount : Keeps parseVarCount := by
  refine Ensures.next.bind fun o _ => ?_
  split
  · split
    · exact (keeps_expectToken _ _).bind fun _ _ => .pure trivial
    · exact .fail
  · exact .pure trivial
  · exact .fail
  · exact .fail

lemma ensures_parseVar : Ensures Good parseVar VarDescriptor.WellTyped := by
  refine keeps_parseVarType.bind fun varType _ => ?_
  refine (ensures_expectIdentifier _).bind fun varName _ => ?_
  refine (keeps_expectToken _ _).bind fun _ _ => ?_
  refine keeps_parseVarCount.bind fun varCount _ => ?_
  exact ensures_parseVarOptions varName varType varCount

/-- The descriptors the parser returns: an ASCII name, and defaults of the right types. -/
structure WellFormed (d : StateDescriptor) : Prop where
  ascii : IsAscii d.name
  typed : ∀ var ∈ d.vars, var.WellTyped

lemma ensures_parseStatedesc : Ensures Good parseStatedesc WellFormed := by
  refine (ensures_expectIdentifier _).bind fun name hname => ?_
  refine (keeps_expectToken _ _).bind fun start _ => ?_
  refine Ensures.loop (I := fun state => ∀ var ∈ state.2, var.WellTyped) (by simp) ?_
    fun _ _ _ h => by cases h
  rintro ⟨token, location⟩ state - hvars
  split
  · split_ifs
    · exact (keeps_expectNumber _ _ false).bind fun _ _ => .pure hvars
    · refine ensures_parseVar.bind fun var hvar => .pure ?_
      intro v hv
      rcases List.mem_append.1 hv with hv | hv
      · exact hvars v hv
      · rwa [List.mem_singleton.1 hv]
    · exact .fail
  · split
    · exact .pure ⟨hname, hvars⟩
    · exact .fail
  · exact .fail

lemma ensures_parseAll : Ensures Good parseAll fun ds => ∀ d ∈ ds, WellFormed d := by
  refine Ensures.loop (I := fun ds => ∀ d ∈ ds, WellFormed d) (by simp) ?_ ?_
  · rintro ⟨token, location⟩ descriptors - hds
    split
    · split_ifs
      · refine ensures_parseStatedesc.bind fun desc hdesc => .pure ?_
        intro d hd
        rcases List.mem_append.1 hd with hd | hd
        · exact hds d hd
        · rwa [List.mem_singleton.1 hd]
      · exact .fail
    · exact .fail
  · rintro _ _ hds ⟨⟩
    exact hds

/-- **What the parser returns is well formed.** -/
theorem parse_wellFormed {file : Bytes} {ds : List StateDescriptor} (h : parse file = .ok ds) :
    ∀ d ∈ ds, WellFormed d := by
  rw [parse] at h
  cases hr : parseAll.run (tokens file) with
  | error e => simp [hr, Except.map] at h
  | ok v =>
    rw [hr] at h
    cases h
    exact (ensures_parseAll _ (good_tokens file) v.1 v.2 hr).1

end Parser

namespace DescriptorDb

variable {X : Hashes.Crates}

/-- `DescriptorDb::from_dir`, given the contents of the files in the order they are listed. -/
def fromFiles (db : DescriptorDb X) : List Bytes → Except ParseError (DescriptorDb X)
  | [] => .ok db
  | file :: files => match Parser.parse file with
    | .ok descriptors => (db.mergeDescriptors descriptors).fromFiles files
    | .error e => .error e

/-- All the descriptors are such as the parser returns. -/
def Parsed (db : DescriptorDb X) : Prop := ∀ d, db.Holds d → Parser.WellFormed d

lemma Parsed.empty : (DescriptorDb.empty : DescriptorDb X).Parsed :=
  fun d hd => by simp [Holds, getVersion, DescriptorDb.empty] at hd

lemma Parsed.merge {db : DescriptorDb X} (h : db.Parsed) {file : Bytes}
    {ds : List StateDescriptor} (hds : Parser.parse file = .ok ds) :
    (db.mergeDescriptors ds).Parsed :=
  fun d hd => (holds_mergeDescriptors hd).elim (h d) (Parser.parse_wellFormed hds d)

lemma Parsed.fromFiles {db db' : DescriptorDb X} (h : db.Parsed) {files : List Bytes}
    (hdb : db.fromFiles files = .ok db') : db'.Parsed := by
  induction files generalizing db with
  | nil => cases hdb; exact h
  | cons file files ih =>
    rw [DescriptorDb.fromFiles] at hdb
    split at hdb
    · exact ih (h.merge ‹_›) hdb
    · cases hdb

end DescriptorDb

end Moulars.Sdl
