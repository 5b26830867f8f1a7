import Moulars.Sdl.Tokenizer

/-!
The layout of a description: what lies between the tokens of a file, and that it does not matter.

A line is cut into blanks, tokens and a comment, one after the other. A token is a longest match, so
that nothing which separates tokens becomes a part of the token before it.
-/

namespace Moulars.Sdl

open Lib Lib.Wire Lib.Text Lib.Fallible

/-! ### Tokens and their spelling -/

def isBlank (b : UInt8) : Prop := Char.ofNat b.toNat ∈ [' ', '\t', '\r', '\n']

instance : DecidablePred isBlank := fun b =>
  inferInstanceAs (Decidable (Char.ofNat b.toNat ∈ [' ', '\t', '\r', '\n']))

/-- The bytes that stand for a token. -/
inductive Spelled : Token → Bytes → Prop
  | number {b : UInt8} {word : Bytes}
      (first : (Char.ofNat b.toNat).isDigit = true ∨ Char.ofNat b.toNat = '-')
      (others : ∀ c ∈ word, isNumeric c = true) :
      Spelled (.number (asciiText (b :: word))) (b :: word)
  | identifier {b : UInt8} {word : Bytes} (first : isLetter b = true)
      (others : ∀ c ∈ word, isWord c = true) :
      Spelled (.identifier (asciiText (b :: word))) (b :: word)
  | typeReference {word : Bytes} (some : word ≠ []) (others : ∀ c ∈ word, isWord c = true) :
      Spelled (.typeReference (asciiText word)) (36 :: word)
  | char {b : UInt8}
      (single : Char.ofNat b.toNat ∈ ['(', ')', '[', ']', '\x7b', '\x7d', '=', ',', ';']) :
      Spelled (.char (Char.ofNat b.toNat)) [b]
  | stringLiteral {literal : Bytes} (inner : 34 ∉ literal) :
      Spelled (.stringLiteral (String.ofList (fromUtf8Lossy literal))) (34 :: (literal ++ [34]))
  | incompleteString {rest : Bytes} (inner : 34 ∉ rest) : Spelled .incompleteString (34 :: rest)
  | invalid {b : UInt8} (comment : Char.ofNat b.toNat ≠ '#') (blank : ¬ isBlank b)
      (digit : ¬ ((Char.ofNat b.toNat).isDigit = true ∨ Char.ofNat b.toNat = '-'))
      (letter : isLetter b = false)
      (single : Char.ofNat b.toNat ∉ ['(', ')', '[', ']', '\x7b', '\x7d', '=', ',', ';'])
      (quote : Char.ofNat b.toNat ≠ '"') : Spelled (.invalid (Char.ofNat b.toNat)) [b]

/-- The byte that follows, if there is one, does not belong to the run. -/
def Stops (p : UInt8 → Bool) (rest : Bytes) : Prop := ∀ b ∈ rest.head?, p b = false

/-- The token cannot be continued by what follows it on the line. -/
def Token.Ends : Token → Bytes → Prop
  | .number _, rest => Stops isNumeric rest
  | .identifier _, rest => Stops isWord rest
  | .typeReference _, rest => Stops isWord rest
  | .invalid c, rest => c = '$' → Stops isWord rest
  | .incompleteString, _ => False
  | _, _ => True

variable {p : UInt8 → Bool} {b : UInt8} {rest rest' : Bytes} {token : Option Token} {taken : ℕ}

lemma takeWhile_append_of_stops {word : Bytes} (hword : ∀ c ∈ word, p c = true)
    (hrest : Stops p rest) :
    (word ++ rest).takeWhile p = word := by
  rw [List.takeWhile_append_of_pos hword]
  cases rest with
  | nil => rw [List.takeWhile_nil, List.append_nil]
  | cons b rest =>
    rw [List.takeWhile_cons_of_neg (Bool.not_eq_true _ ▸ hrest b rfl), List.append_nil]

lemma stops_drop_takeWhile (p : UInt8 → Bool) (rest : Bytes) :
    Stops p (rest.drop (rest.takeWhile p).length) := by
  induction rest with
  | nil => exact fun _ => nofun
  | cons b rest ih =>
    by_cases hb : p b = true
    · rw [List.takeWhile_cons_of_pos hb]
      exact ih
    · rw [List.takeWhile_cons_of_neg hb]
      rintro _ ⟨⟩
      exact Bool.not_eq_true _ ▸ hb

lemma take_length_takeWhile (p : UInt8 → Bool) (rest : Bytes) :
    rest.take (rest.takeWhile p).length = rest.takeWhile p :=
  (List.prefix_iff_eq_take.1 (List.takeWhile_prefix p)).symm

lemma ofNat_eq_hash (b : UInt8) : Char.ofNat b.toNat = '#' ↔ b = 35 := by
  revert b
  exact uint8_all (by decide +kernel)

lemma ofNat_eq_quote (b : UInt8) : Char.ofNat b.toNat = '"' ↔ b = 34 := by
  revert b
  exact uint8_all (by decide +kernel)

/-- What a round over a line finds. -/
def Scanned.Sound (b : UInt8) (rest : Bytes) : Scanned → Prop
  | .stop none => b = 35
  | .stop (some token) => token = .incompleteString ∧ b = 34 ∧ 34 ∉ rest
  | .go none taken => isBlank b ∧ taken = 0
  | .go (some token) taken => Spelled token (b :: rest.take taken) ∧ token.Ends (rest.drop taken)

lemma word_spelled (rest : Bytes) :
    ∀ c ∈ rest.takeWhile p, p c = true := fun _ => List.mem_takeWhile_imp

lemma scanOne_sound (b : UInt8) (rest : Bytes) : (scanOne b rest).Sound b rest := by
  unfold scanOne
  simp only
  split
  next hhash => exact (ofNat_eq_hash b).1 hhash
  next hhash =>
  split
  next hblank => exact ⟨hblank, rfl⟩
  next hblank =>
  split
  next hdigit =>
    refine ⟨?_, stops_drop_takeWhile isNumeric rest⟩
    rw [take_length_takeWhile]
    exact .number hdigit (word_spelled rest)
  next hdigit =>
  split
  next hdollar =>
    obtain rfl := (ofNat_eq_dollar b).1 hdollar
    split
    next hempty =>
      refine ⟨.invalid hhash hblank hdigit rfl (by decide) (by decide), fun _ => ?_⟩
      have hstops := stops_drop_takeWhile isWord rest
      rwa [hempty] at hstops
    next hword =>
      refine ⟨?_, stops_drop_takeWhile isWord rest⟩
      rw [take_length_takeWhile]
      exact .typeReference hword (word_spelled rest)
  next hdollar =>
  split
  next hletter =>
    refine ⟨?_, stops_drop_takeWhile isWord rest⟩
    rw [take_length_takeWhile]
    exact .identifier hletter (word_spelled rest)
  next hletter =>
  split
  next hchar => exact ⟨.char hchar, trivial⟩
  next hchar =>
  split
  next hquote =>
    obtain rfl := (ofNat_eq_quote b).1 hquote
    have hinner : 34 ∉ rest.takeWhile (· ≠ 34) := fun hmem => by
      simpa using List.mem_takeWhile_imp hmem
    split
    next hclosed =>
      obtain ⟨after, hafter⟩ := exists_closing_quote hclosed
      generalize rest.takeWhile (· ≠ 34) = literal at hafter hinner
      have htake : rest.take (literal.length + 1) = literal ++ [34] := by
        rw [hafter, List.take_append, List.take_of_length_le (Nat.le_succ _),
          Nat.add_sub_cancel_left]
        rfl
      refine ⟨?_, trivial⟩
      rw [htake]
      exact .stringLiteral hinner
    next hopen =>
      refine ⟨rfl, rfl, ?_⟩
      have hall : rest.takeWhile (· ≠ 34) = rest :=
        (List.takeWhile_sublist _).eq_of_length_le (Nat.not_lt.1 hopen)
      rwa [hall] at hinner
  next hquote =>
    exact ⟨.invalid hhash hblank hdigit (Bool.not_eq_true _ ▸ hletter) hchar hquote,
      fun hdollar' => absurd hdollar' hdollar⟩

/-- A byte that separates tokens. -/
def isDelimiter (b : UInt8) : Prop := b = 35 ∨ isBlank b

instance : DecidablePred isDelimiter := fun b => inferInstanceAs (Decidable (b = 35 ∨ isBlank b))

lemma not_isNumeric_of_isDelimiter (b : UInt8) : isDelimiter b → isNumeric b = false := by
  revert b
  exact uint8_all (by decide +kernel)

lemma not_isWord_of_isDelimiter (b : UInt8) : isDelimiter b → isWord b = false := by
  revert b
  exact uint8_all (by decide +kernel)

lemma digit_starts (b : UInt8) : ((Char.ofNat b.toNat).isDigit = true ∨ Char.ofNat b.toNat = '-') →
    Char.ofNat b.toNat ≠ '#' ∧ Char.ofNat b.toNat ∉ [' ', '\t', '\r', '\n'] := by
  revert b
  exact uint8_all (by decide +kernel)

lemma letter_starts (b : UInt8) : isLetter b = true →
    Char.ofNat b.toNat ≠ '#' ∧ Char.ofNat b.toNat ∉ [' ', '\t', '\r', '\n'] ∧
      ¬ ((Char.ofNat b.toNat).isDigit = true ∨ Char.ofNat b.toNat = '-') ∧
      Char.ofNat b.toNat ≠ '$' := by
  revert b
  exact uint8_all (by decide +kernel)

lemma single_starts (b : UInt8) :
    Char.ofNat b.toNat ∈ ['(', ')', '[', ']', '\x7b', '\x7d', '=', ',', ';'] →
    Char.ofNat b.toNat ≠ '#' ∧ Char.ofNat b.toNat ∉ [' ', '\t', '\r', '\n'] ∧
      ¬ ((Char.ofNat b.toNat).isDigit = true ∨ Char.ofNat b.toNat = '-') ∧
      Char.ofNat b.toNat ≠ '$' ∧ isLetter b = false := by
  revert b
  exact uint8_all (by decide +kernel)

/-- **Longest match**: a token is found where it is spelled and cannot be continued. -/
lemma scanOne_eq_go {token : Token} {word : Bytes} (hspelled : Spelled token (b :: word))
    (hends : token.Ends rest) :
    scanOne b (word ++ rest) = .go (some token) word.length := by
  unfold scanOne
  simp only
  cases hspelled with
  | number first others =>
    obtain ⟨hhash, hblank⟩ := digit_starts b first
    rw [if_neg hhash, if_neg hblank, if_pos first, takeWhile_append_of_stops others hends]
  | identifier first others =>
    obtain ⟨hhash, hblank, hdigit, hdollar⟩ := letter_starts b first
    rw [if_neg hhash, if_neg hblank, if_neg hdigit, if_neg hdollar, if_pos first,
      takeWhile_append_of_stops others hends]
  | typeReference some others =>
    rw [takeWhile_append_of_stops others hends]
    exact if_neg some
  | char single =>
    obtain ⟨hhash, hblank, hdigit, hdollar, hletter⟩ := single_starts b single
    rw [if_neg hhash, if_neg hblank, if_neg hdigit, if_neg hdollar, hletter,
      if_neg Bool.false_ne_true, if_pos single]
    rfl
  | @stringLiteral literal inner =>
    have hword : (literal ++ [34] ++ rest).takeWhile (· ≠ 34) = literal := by
      rw [List.append_assoc]
      refine takeWhile_append_of_stops (fun c hc => decide_eq_true ?_) ?_
      · exact fun h => inner (h ▸ hc)
      · rintro _ ⟨⟩
        rfl
    have hclosed : literal.length < (literal ++ [34] ++ rest).length := by simp
    have hlen : (literal ++ [34]).length = literal.length + 1 := List.length_append
    rw [hword, hlen]
    exact if_pos hclosed
  | incompleteString inner => exact hends.elim
  | invalid comment blank digit letter single quote =>
    have hblank : Char.ofNat b.toNat ∉ [' ', '\t', '\r', '\n'] := blank
    rw [if_neg comment, if_neg hblank, if_neg digit, letter, if_neg Bool.false_ne_true,
      if_neg single, if_neg quote]
    split
    next hdollar =>
      have hword : ([] ++ rest).takeWhile isWord = [] :=
        takeWhile_append_of_stops (fun _ => nofun) (hends hdollar)
      rw [hword]
      rfl
    next => rfl

/-! ### Segments of a line -/

inductive Segment
  | blank (text : Bytes)
  | comment (text : Bytes)
  | token (token : Token) (text : Bytes)

namespace Segment

def text : Segment → Bytes
  | .blank text => text
  | .comment text => text
  | .token _ text => text

def token? : Segment → Option Token
  | .token found _ => some found
  | _ => none

def ofRound (text : Bytes) : Option Token → Segment
  | some found => .token found text
  | none => .blank text

def ofStop (text : Bytes) : Option Token → Segment
  | some found => .token found text
  | none => .comment text

/-- A blank is one byte of whitespace, a comment begins with its mark, and a token has its
spelling. -/
def Shaped : Segment → Prop
  | .blank text => ∃ b, isBlank b ∧ text = [b]
  | .comment text => ∃ rest, text = 35 :: rest
  | .token found text => Spelled found text

def isComment : Segment → Bool
  | .comment _ => true
  | _ => false

@[simp] lemma text_ofRound (text : Bytes) (found : Option Token) :
    (ofRound text found).text = text := by cases found <;> rfl

@[simp] lemma text_ofStop (text : Bytes) (found : Option Token) :
    (ofStop text found).text = text := by cases found <;> rfl

@[simp] lemma token?_ofRound (text : Bytes) (found : Option Token) :
    (ofRound text found).token? = found := by cases found <;> rfl

@[simp] lemma token?_ofStop (text : Bytes) (found : Option Token) :
    (ofStop text found).token? = found := by cases found <;> rfl

@[simp] lemma isComment_ofRound (text : Bytes) (found : Option Token) :
    (ofRound text found).isComment = false := by cases found <;> rfl

end Segment

open Segment (ofRound ofStop)

/-- A line cut into segments, in at most `n` rounds. -/
def segmentsIn : ℕ → Bytes → List Segment
  | n + 1, b :: rest => match scanOne b rest with
    | .stop token => [ofStop (b :: rest) token]
    | .go token taken => ofRound (b :: rest.take taken) token :: segmentsIn n (rest.drop taken)
  | _, _ => []

def segments (line : Bytes) : List Segment := segmentsIn line.length line

lemma segmentsIn_eq {n m : ℕ} {bs : Bytes} (hn : bs.length ≤ n) (hm : bs.length ≤ m) :
    segmentsIn n bs = segmentsIn m bs := by
  induction n generalizing m bs with
  | zero =>
    obtain rfl : bs = [] := List.length_eq_zero_iff.1 (Nat.le_zero.1 hn)
    cases m <;> rfl
  | succ n ih =>
    cases bs with
    | nil => cases m <;> rfl
    | cons b rest =>
      rw [List.length_cons] at hn hm
      obtain ⟨m, rfl⟩ : ∃ k, m = k + 1 := ⟨m - 1, by omega⟩
      rw [segmentsIn, segmentsIn]
      cases scanOne b rest with
      | stop token => rfl
      | go token taken =>
        have hlen : (rest.drop taken).length ≤ rest.length := by simp
        exact congrArg _ (ih (by omega) (by omega))

lemma segments_stop (h : scanOne b rest = .stop token) :
    segments (b :: rest) = [ofStop (b :: rest) token] := by
  rw [segments, List.length_cons, segmentsIn, h]

lemma segments_go (h : scanOne b rest = .go token taken) : segments (b :: rest) =
      ofRound (b :: rest.take taken) token :: segments (rest.drop taken) := by
  rw [segments, List.length_cons, segmentsIn, h]
  exact congrArg _ (segmentsIn_eq (by simp) (Nat.le_refl _))

lemma segments_induction {P : Bytes → Prop} (nil : P [])
    (stop : ∀ b rest token, scanOne b rest = .stop token → P (b :: rest))
    (go : ∀ b rest token taken, scanOne b rest = .go token taken → P (rest.drop taken) →
      P (b :: rest)) (line : Bytes) : P line := by
  induction hn : line.length using Nat.strong_induction_on generalizing line with
  | _ n ih =>
    cases line with
    | nil => exact nil
    | cons b rest =>
      cases hscan : scanOne b rest with
      | stop token => exact stop b rest token hscan
      | go token taken =>
        refine go b rest token taken hscan (ih _ ?_ _ rfl)
        rw [← hn, List.length_cons, List.length_drop]
        omega

lemma flatMap_text_segments (line : Bytes) : (segments line).flatMap Segment.text = line := by
  induction line using segments_induction with
  | nil => rfl
  | stop b rest token h =>
    rw [segments_stop h, List.flatMap_singleton, Segment.text_ofStop]
  | go b rest token taken h ih =>
    rw [segments_go h, List.flatMap_cons, ih, Segment.text_ofRound, List.cons_append,
      List.take_append_drop]

lemma segments_shaped (line : Bytes) : ∀ segment ∈ segments line, segment.Shaped := by
  induction line using segments_induction with
  | nil => exact fun _ => nofun
  | stop b rest token h =>
    have hsound := scanOne_sound b rest
    rw [h] at hsound
    rw [segments_stop h]
    rintro _ (_ | ⟨_, ⟨⟩⟩)
    cases token with
    | none =>
      obtain rfl : b = 35 := hsound
      exact ⟨rest, rfl⟩
    | some token =>
      obtain ⟨rfl, rfl, hinner⟩ := hsound
      exact .incompleteString hinner
  | go b rest token taken h ih =>
    have hsound := scanOne_sound b rest
    rw [h] at hsound
    rw [segments_go h]
    rintro segment (_ | ⟨_, hmem⟩)
    · cases token with
      | none =>
        obtain ⟨hblank, rfl⟩ := hsound
        exact ⟨b, hblank, rfl⟩
      | some token => exact hsound.1
    · exact ih segment hmem

lemma Segment.Shaped.text_ne_nil {segment : Segment} (h : segment.Shaped) : segment.text ≠ [] := by
  cases segment with
  | blank text =>
    obtain ⟨b, -, rfl⟩ := h
    exact List.cons_ne_nil _ _
  | comment text =>
    obtain ⟨rest, rfl⟩ := h
    exact List.cons_ne_nil _ _
  | token token text =>
    cases h with
    | _ => exact List.cons_ne_nil _ _

lemma not_isComment_dropLast (line : Bytes) :
    ∀ segment ∈ (segments line).dropLast, segment.isComment = false := by
  induction line using segments_induction with
  | nil => exact fun _ => nofun
  | stop b rest token h =>
    rw [segments_stop h]
    exact fun _ => nofun
  | go b rest token taken h ih =>
    rw [segments_go h]
    cases htail : segments (rest.drop taken) with
    | nil => exact fun _ => nofun
    | cons next others =>
      rw [htail] at ih
      rintro segment (_ | ⟨_, hmem⟩)
      · exact Segment.isComment_ofRound _ _
      · exact ih segment hmem

/-! ### The places of the tokens -/

/-- A token, and the bytes of the line that it takes. -/
structure Span where
  token : Token
  start : ℕ
  stop : ℕ

/-- The tokens among some segments, the first of which begins at `start`. -/
def spans : ℕ → List Segment → List Span
  | _, [] => []
  | start, segment :: segments =>
    (segment.token?.toList.map fun token => ⟨token, start, start + segment.text.length⟩) ++
      spans (start + segment.text.length) segments

def Span.located (lineNo : ℕ) (span : Span) : Token × Location :=
  (span.token, ⟨lineNo, span.start + 1⟩)

lemma scan_eq_spans (lineNo start : ℕ) (line : Bytes) : scan lineNo line.length start line =
    (spans start (segments line)).map (Span.located lineNo) := by
  induction line using segments_induction generalizing start with
  | nil => rfl
  | stop b rest token h =>
    rw [segments_stop h, List.length_cons, scan, h]
    cases token <;> rfl
  | go b rest token taken h ih =>
    have htaken : (b :: rest.take taken).length = 1 + taken := by
      rw [List.length_cons, List.length_take, Nat.min_eq_left (taken_le h), Nat.add_comm]
    have hscan : scan lineNo rest.length (start + 1 + taken) (rest.drop taken) =
        scan lineNo (rest.drop taken).length (start + 1 + taken) (rest.drop taken) :=
      scan_eq lineNo (by simp) (Nat.le_refl _)
    rw [segments_go h, List.length_cons, scan, h, spans, List.map_append, Segment.text_ofRound,
      htaken, ← Nat.add_assoc, ← ih, ← hscan, Segment.token?_ofRound]
    cases token <;> rfl

lemma le_start_of_mem_spans {start : ℕ} {segments : List Segment} {span : Span}
    (h : span ∈ spans start segments) : start ≤ span.start := by
  induction segments generalizing start with
  | nil => cases h
  | cons segment segments ih =>
    rcases List.mem_append.1 h with hhead | htail
    · obtain ⟨_, _, rfl⟩ := List.mem_map.1 hhead
      exact Nat.le_refl _
    · exact Nat.le_trans (Nat.le_add_right _ _) (ih htail)

lemma pairwise_spans {segments : List Segment} (h : ∀ segment ∈ segments, segment.text ≠ [])
    (start : ℕ) :
    (spans start segments).Pairwise (fun a b => a.start < a.stop ∧ a.stop ≤ b.start) := by
  induction segments generalizing start with
  | nil => exact .nil
  | cons segment segments ih =>
    obtain ⟨hhead, htail⟩ := List.forall_mem_cons.1 h
    refine List.pairwise_append.2 ⟨?_, ih htail _, ?_⟩
    · cases segment.token? with
      | none => exact .nil
      | some token => exact List.pairwise_singleton _ _
    · rintro a ha b hb
      obtain ⟨_, _, rfl⟩ := List.mem_map.1 ha
      have hpos := List.length_pos_iff.2 hhead
      exact ⟨Nat.lt_add_of_pos_right hpos, le_start_of_mem_spans hb⟩

/-! ### Segments of a file -/

def fileSegments (file : Bytes) : List Segment := (lines file).flatMap segments

lemma fileSegments_eq (file : Bytes) : fileSegments file =
    segments (readUntil 10 file).1 ++ fileSegments (readUntil 10 file).2 := by
  by_cases h : file = []
  · subst h
    rfl
  · rw [fileSegments, lines_eq h, List.flatMap_cons]
    rfl

lemma readUntil_append_of_notMem {line : Bytes} (h : 10 ∉ line) (rest : Bytes) :
    readUntil 10 (line ++ rest) = (line ++ (readUntil 10 rest).1, (readUntil 10 rest).2) := by
  induction line with
  | nil => rfl
  | cons b line ih =>
    obtain ⟨hb, hline⟩ := not_or.1 (List.mem_cons.not.1 h)
    rw [List.cons_append, readUntil, if_neg (Ne.symm hb), ih hline]
    rfl

lemma readUntil_line {line : Bytes} (h : 10 ∉ line) (rest : Bytes) :
    readUntil 10 (line ++ 10 :: rest) = (line ++ [10], rest) :=
  readUntil_append_of_notMem h (10 :: rest)

lemma readUntil_cases (bs : Bytes) : (10 ∉ (readUntil 10 bs).1 ∧ (readUntil 10 bs).2 = []) ∨
    ∃ line, 10 ∉ line ∧ (readUntil 10 bs).1 = line ++ [10] := by
  induction bs with
  | nil => exact .inl ⟨List.not_mem_nil, rfl⟩
  | cons b rest ih =>
    by_cases hb : b = 10
    · subst hb
      exact .inr ⟨[], List.not_mem_nil, rfl⟩
    · rw [readUntil, if_neg hb]
      rcases ih with ⟨hline, hrest⟩ | ⟨line, hline, hfront⟩
      · exact .inl ⟨List.not_mem_cons_of_ne_of_not_mem (Ne.symm hb) hline, hrest⟩
      · exact .inr ⟨b :: line, List.not_mem_cons_of_ne_of_not_mem (Ne.symm hb) hline,
          congrArg (b :: ·) hfront⟩

lemma head?_readUntil (bs : Bytes) : (readUntil 10 bs).1.head? = bs.head? := by
  cases bs with
  | nil => rfl
  | cons b rest =>
    rw [readUntil]
    split <;> rfl

lemma getLast?_of_spelled {token : Token} {word : Bytes} (hspelled : Spelled token (b :: word))
    (hends : token.Ends rest) :
    word.getLast? ≠ some 10 := by
  intro hlast
  have hmem := List.mem_of_getLast? hlast
  cases hspelled with
  | number first others => exact absurd (others 10 hmem) (by decide)
  | identifier first others => exact absurd (others 10 hmem) (by decide)
  | typeReference some others => exact absurd (others 10 hmem) (by decide)
  | char single => cases hmem
  | stringLiteral inner =>
    rw [List.getLast?_concat] at hlast
    exact absurd hlast (by decide)
  | incompleteString inner => exact hends
  | invalid comment blank digit letter single quote => cases hmem

lemma newline_notMem_take (h : scanOne b (readUntil 10 rest).1 = .go token taken) :
    10 ∉ (readUntil 10 rest).1.take taken := by
  have hsound := scanOne_sound b (readUntil 10 rest).1
  rw [h] at hsound
  cases token with
  | none =>
    obtain ⟨-, rfl⟩ := hsound
    exact List.not_mem_nil
  | some token =>
    rcases readUntil_cases rest with ⟨hline, -⟩ | ⟨line, hline, hfront⟩
    · exact fun hmem => hline (List.mem_of_mem_take hmem)
    · have htaken := taken_le h
      have hlast := getLast?_of_spelled hsound.1 hsound.2
      rw [hfront] at htaken hlast ⊢
      by_cases hle : taken ≤ line.length
      · rw [List.take_append_of_le_length hle]
        exact fun hmem => hline (List.mem_of_mem_take hmem)
      · rw [List.length_append, List.length_singleton] at htaken
        rw [List.take_of_length_le (by rw [List.length_append, List.length_singleton]; omega)]
          at hlast
        exact absurd List.getLast?_concat hlast

lemma readUntil_drop (h : scanOne b (readUntil 10 rest).1 = .go token taken) :
    rest.take taken = (readUntil 10 rest).1.take taken ∧ readUntil 10 (rest.drop taken) =
      ((readUntil 10 rest).1.drop taken, (readUntil 10 rest).2) := by
  have htaken := taken_le h
  have hnotMem := newline_notMem_take h
  have hrest := readUntil_append rest
  have htake : rest.take taken = (readUntil 10 rest).1.take taken := by
    conv_lhs => rw [← hrest]
    rw [List.take_append_of_le_length htaken]
  refine ⟨htake, ?_⟩
  have hcut := readUntil_append_of_notMem hnotMem (rest.drop taken)
  rw [← htake, List.take_append_drop, htake] at hcut
  have hfront : (readUntil 10 rest).1.take taken ++ (readUntil 10 (rest.drop taken)).1 =
      (readUntil 10 rest).1.take taken ++ (readUntil 10 rest).1.drop taken := by
    rw [List.take_append_drop]
    exact (congrArg Prod.fst hcut).symm
  exact Prod.ext (List.append_cancel_left hfront) (congrArg Prod.snd hcut).symm

lemma scanOne_blank (h : isBlank b) (rest : Bytes) : scanOne b rest = .go none 0 := by
  have hhash : Char.ofNat b.toNat ≠ '#' := by
    intro hc
    obtain rfl := (ofNat_eq_hash b).1 hc
    exact absurd h (by decide)
  unfold scanOne
  simp only
  rw [if_neg hhash]
  exact if_pos h

lemma scanOne_comment (rest : Bytes) : scanOne 35 rest = .stop none := rfl

lemma readUntil_cons (h : b ≠ 10) (rest : Bytes) :
    readUntil 10 (b :: rest) = (b :: (readUntil 10 rest).1, (readUntil 10 rest).2) := if_neg h

lemma fileSegments_go (h : scanOne b (readUntil 10 rest).1 = .go token taken) :
    fileSegments (b :: rest) =
      ofRound (b :: rest.take taken) token :: fileSegments (rest.drop taken) := by
  obtain ⟨htake, hdrop⟩ := readUntil_drop h
  by_cases hb : b = 10
  · subst hb
    rw [scanOne_blank (by decide)] at h
    cases h
    rw [fileSegments_eq (10 :: rest)]
    rfl
  · rw [fileSegments_eq, readUntil_cons hb, segments_go h, fileSegments_eq (rest.drop taken),
      hdrop, htake]
    rfl

lemma fileSegments_stop (h : scanOne b (readUntil 10 rest).1 = .stop token) :
    fileSegments (b :: rest) =
      ofStop (b :: (readUntil 10 rest).1) token :: fileSegments (readUntil 10 rest).2 := by
  have hb : b ≠ 10 := by
    rintro rfl
    rw [scanOne_blank (by decide)] at h
    cases h
  rw [fileSegments_eq, readUntil_cons hb, segments_stop h]
  rfl

lemma flatMap_text_fileSegments (file : Bytes) :
    (fileSegments file).flatMap Segment.text = file := by
  induction hn : file.length using Nat.strong_induction_on generalizing file with
  | _ n ih =>
    by_cases hfile : file = []
    · subst hfile
      rfl
    · have hfront := List.length_pos_iff.2 (readUntil_ne_nil hfile)
      have hlen := congrArg List.length (readUntil_append file)
      rw [List.length_append] at hlen
      rw [fileSegments_eq, List.flatMap_append, flatMap_text_segments,
        ih _ (by omega) (readUntil 10 file).2 rfl, readUntil_append]

/-! ### Insertions -/

lemma Stops.of_head? (hp : ∀ b, isDelimiter b → p b = false) (h : Stops p rest)
    (hhead : ∀ b ∈ rest'.head?, isDelimiter b ∨ b ∈ rest.head?) : Stops p rest' := by
  intro b hb
  rcases hhead b hb with hdelimiter | hmem
  · exact hp b hdelimiter
  · exact h b hmem

lemma Token.Ends.of_head? {token : Token} (h : token.Ends rest)
    (hhead : ∀ b ∈ rest'.head?, isDelimiter b ∨ b ∈ rest.head?) : token.Ends rest' := by
  cases token with
  | number value => exact Stops.of_head? not_isNumeric_of_isDelimiter h hhead
  | identifier ident => exact Stops.of_head? not_isWord_of_isDelimiter h hhead
  | typeReference ident => exact Stops.of_head? not_isWord_of_isDelimiter h hhead
  | stringLiteral literal => trivial
  | char c => trivial
  | invalid c => exact fun hc => Stops.of_head? not_isWord_of_isDelimiter (h hc) hhead
  | incompleteString => exact h

lemma scanOne_go_of_head? (h : scanOne b rest = .go token taken)
    (hhead : ∀ c ∈ rest'.head?, isDelimiter c ∨ c ∈ (rest.drop taken).head?) :
    scanOne b (rest.take taken ++ rest') = .go token taken := by
  have hsound := scanOne_sound b rest
  rw [h] at hsound
  cases token with
  | none =>
    obtain ⟨hblank, rfl⟩ := hsound
    exact scanOne_blank hblank _
  | some token =>
    rw [scanOne_eq_go hsound.1 (hsound.2.of_head? hhead), List.length_take,
      Nat.min_eq_left (taken_le h)]

lemma fileSegments_go_of_head? {c : UInt8} (h : scanOne c (readUntil 10 rest).1 = .go token taken)
    (hhead : ∀ b ∈ rest'.head?, isDelimiter b ∨ b ∈ (rest.drop taken).head?) :
    fileSegments (c :: (rest.take taken ++ rest')) =
      ofRound (c :: rest.take taken) token :: fileSegments rest' := by
  obtain ⟨htake, hdrop⟩ := readUntil_drop h
  have hnotMem := newline_notMem_take h
  have hlen : (rest.take taken).length = taken := by
    rw [htake, List.length_take, Nat.min_eq_left (taken_le h)]
  have hline : (readUntil 10 (rest.take taken ++ rest')).1 =
      (readUntil 10 rest).1.take taken ++ (readUntil 10 rest').1 := by
    rw [htake, readUntil_append_of_notMem hnotMem]
  have hdropHead : ((readUntil 10 rest).1.drop taken).head? = (rest.drop taken).head? := by
    rw [← head?_readUntil (rest.drop taken), hdrop]
  have hscan : scanOne c (readUntil 10 (rest.take taken ++ rest')).1 = .go token taken := by
    rw [hline]
    refine scanOne_go_of_head? h fun b hb => ?_
    rw [head?_readUntil] at hb
    rw [hdropHead]
    exact hhead b hb
  rw [fileSegments_go hscan, List.take_left' hlen, List.drop_left' hlen]

lemma fileSegments_stop_line {c : UInt8} {line : Bytes} (h : scanOne c (line ++ [10]) = .stop token)
    (hline : 10 ∉ line) (rest : Bytes) :
    fileSegments (c :: (line ++ 10 :: rest)) =
      ofStop (c :: (line ++ [10])) token :: fileSegments rest := by
  have hread := readUntil_line hline rest
  have hscan : scanOne c (readUntil 10 (line ++ 10 :: rest)).1 = .stop token := by rwa [hread]
  rw [fileSegments_stop hscan, hread]

variable {front behind : List Segment} {text file : Bytes}

/-- What comes before a place between two segments stays the same when a delimiter is put there. -/
lemma fileSegments_insert {before after : Bytes}
    (h : fileSegments (before ++ after) = front ++ behind)
    (hbefore : front.flatMap Segment.text = before) (hafter : after ≠ []) :
    fileSegments after = behind ∧ ∀ b rest, isDelimiter b →
      fileSegments (before ++ b :: rest) = front ++ fileSegments (b :: rest) := by
  induction front generalizing before with
  | nil =>
    subst hbefore
    exact ⟨h, fun _ _ _ => rfl⟩
  | cons segment front ih =>
    rw [List.flatMap_cons] at hbefore
    subst hbefore
    rw [List.append_assoc] at h
    cases hfile : segment.text ++ (front.flatMap Segment.text ++ after) with
    | nil => exact absurd (List.append_eq_nil_iff.1 (List.append_eq_nil_iff.1 hfile).2).2 hafter
    | cons c rest =>
      rw [hfile] at h
      cases hscan : scanOne c (readUntil 10 rest).1 with
      | go token taken =>
        rw [fileSegments_go hscan] at h
        obtain ⟨rfl, hsegments⟩ := List.cons_eq_cons.1 h
        rw [Segment.text_ofRound, List.cons_append, List.cons_eq_cons] at hfile
        have hrest : rest.drop taken = front.flatMap Segment.text ++ after :=
          List.append_cancel_left ((List.take_append_drop taken rest).trans hfile.2.symm)
        rw [hrest] at hsegments
        obtain ⟨hbehind, hinsert⟩ := ih hsegments rfl
        refine ⟨hbehind, fun b rest' hb => ?_⟩
        rw [Segment.text_ofRound, List.append_assoc, List.cons_append, List.cons_append,
          ← hinsert b rest' hb]
        refine fileSegments_go_of_head? hscan ?_
        rw [hrest]
        cases front.flatMap Segment.text with
        | nil =>
          rintro _ ⟨⟩
          exact .inl hb
        | cons d texts => exact fun _ hd => .inr hd
      | stop token =>
        rw [fileSegments_stop hscan] at h
        obtain ⟨rfl, hsegments⟩ := List.cons_eq_cons.1 h
        rw [Segment.text_ofStop, List.cons_append, List.cons_eq_cons] at hfile
        have hrest : (readUntil 10 rest).2 = front.flatMap Segment.text ++ after :=
          List.append_cancel_left ((readUntil_append rest).trans hfile.2.symm)
        rw [hrest] at hsegments
        obtain ⟨hbehind, hinsert⟩ := ih hsegments rfl
        refine ⟨hbehind, fun b rest' hb => ?_⟩
        -- there is more behind the line, which therefore has its line break
        rcases readUntil_cases rest with ⟨-, hend⟩ | ⟨line, hline, hfront⟩
        · rw [hrest] at hend
          exact absurd (List.append_eq_nil_iff.1 hend).2 hafter
        · rw [hfront] at hscan ⊢
          rw [Segment.text_ofStop, List.append_assoc, List.cons_append, List.append_assoc,
            List.singleton_append, List.cons_append, ← hinsert b rest' hb]
          exact fileSegments_stop_line hscan hline _

/-- What may stand between tokens: whitespace, and comments ended by a line break. -/
inductive Layout : Bytes → Prop
  | nil : Layout []
  | blank {b : UInt8} {rest : Bytes} (first : isBlank b) (others : Layout rest) :
      Layout (b :: rest)
  | comment {text rest : Bytes} (inner : 10 ∉ text) (others : Layout rest) :
      Layout (35 :: (text ++ 10 :: rest))

def kinds (file : Bytes) : List Token := (fileSegments file).filterMap Segment.token?

lemma kinds_blank (h : isBlank b) (rest : Bytes) : kinds (b :: rest) = kinds rest := by
  rw [kinds, fileSegments_go (scanOne_blank h _)]
  rfl

lemma kinds_comment (rest : Bytes) : kinds (35 :: rest) = kinds (readUntil 10 rest).2 := by
  rw [kinds, fileSegments_stop (scanOne_comment _)]
  rfl

lemma kinds_comment_line (h : 10 ∉ text) (rest : Bytes) :
    kinds (35 :: (text ++ 10 :: rest)) = kinds rest := by
  rw [kinds_comment, readUntil_line h]

lemma Layout.kinds_append {inserted : Bytes} (h : Layout inserted) (after : Bytes) :
    kinds (inserted ++ after) = kinds after := by
  induction h with
  | nil => rfl
  | blank first others ih => rw [List.cons_append, kinds_blank first, ih]
  | comment inner others ih =>
    rw [List.cons_append, List.append_assoc, List.cons_append, kinds_comment_line inner, ih]

lemma Layout.kinds_comment_append {inserted : Bytes} (h : Layout inserted) (htext : 10 ∉ text)
    (after : Bytes) :
    kinds (35 :: (text ++ (inserted ++ 10 :: after))) = kinds after := by
  have hnewline : kinds (10 :: after) = kinds after := kinds_blank (by decide) after
  induction h generalizing text with
  | nil => exact kinds_comment_line htext after
  | @blank b rest first others ih =>
    by_cases hb : b = 10
    · subst hb
      rw [List.cons_append, kinds_comment_line htext, others.kinds_append, hnewline]
    · have hmem : 10 ∉ text ++ [b] := by
        rw [List.mem_append, List.mem_singleton]
        exact not_or.2 ⟨htext, Ne.symm hb⟩
      have hjoin : text ++ (b :: rest ++ 10 :: after) = (text ++ [b]) ++ (rest ++ 10 :: after) := by
        simp
      rw [hjoin]
      exact ih hmem
  | @comment inner rest hinner others ih =>
    -- the inserted comment goes on with the one before it
    have hmem : 10 ∉ text ++ 35 :: inner := by
      rw [List.mem_append, List.mem_cons]
      exact not_or.2 ⟨htext, not_or.2 ⟨by decide, hinner⟩⟩
    have hjoin : text ++ (35 :: (inner ++ 10 :: rest) ++ 10 :: after) =
        (text ++ 35 :: inner) ++ 10 :: (rest ++ 10 :: after) := by simp
    rw [hjoin, kinds_comment_line hmem, others.kinds_append, hnewline]

def hasToken (segments : List Segment) : Prop := ∃ segment ∈ segments, segment.token?.isSome

/-- The bytes before and after a place between two tokens of a file, which may be inside a
comment. -/
inductive Gap (file : Bytes) : Bool → Bytes → Bytes → Prop
  | outside (front behind : List Segment) (cut : fileSegments file = front ++ behind)
      (before : hasToken front) (after : hasToken behind) :
      Gap file false (front.flatMap Segment.text) (behind.flatMap Segment.text)
  | behindComment (front behind : List Segment) (text : Bytes)
      (cut : fileSegments file = front ++ .comment (text ++ [10]) :: behind)
      (before : hasToken front) (after : hasToken behind) :
      Gap file false (front.flatMap Segment.text ++ text) (10 :: behind.flatMap Segment.text)
  | inComment (front behind : List Segment) (done left : Bytes)
      (cut : fileSegments file = front ++ .comment (done ++ left) :: behind)
      (begun : done ≠ []) (more : left ≠ [])
      (before : hasToken front) (after : hasToken behind) :
      Gap file true (front.flatMap Segment.text ++ done) (left ++ behind.flatMap Segment.text)

lemma fileSegments_eq_comment (h : fileSegments file = .comment text :: behind) :
    ∃ rest, file = 35 :: rest ∧ text = 35 :: (readUntil 10 rest).1 ∧
      behind = fileSegments (readUntil 10 rest).2 := by
  cases file with
  | nil => cases h
  | cons c rest =>
    cases hscan : scanOne c (readUntil 10 rest).1 with
    | go token taken =>
      rw [fileSegments_go hscan] at h
      cases token with
      | none => cases h
      | some token => cases h
    | stop token =>
      have hsound := scanOne_sound c (readUntil 10 rest).1
      rw [hscan] at hsound
      rw [fileSegments_stop hscan] at h
      cases token with
      | none =>
        obtain rfl : c = 35 := hsound
        cases h
        exact ⟨rest, rfl, rfl, rfl⟩
      | some token => cases h

lemma fileSegments_cut (cut : fileSegments file = front ++ behind) (after : hasToken behind) :
    file = front.flatMap Segment.text ++ behind.flatMap Segment.text ∧
      fileSegments (behind.flatMap Segment.text) = behind ∧ ∀ b rest, isDelimiter b →
        kinds (front.flatMap Segment.text ++ b :: rest) =
          front.filterMap Segment.token? ++ kinds (b :: rest) := by
  have hfile : file = front.flatMap Segment.text ++ behind.flatMap Segment.text := by
    rw [← List.flatMap_append, ← cut, flatMap_text_fileSegments]
  have hne : behind.flatMap Segment.text ≠ [] := by
    intro hnil
    obtain ⟨segment, hmem, -⟩ := after
    have hfileMem : segment ∈ fileSegments file := by
      rw [cut]
      exact List.mem_append_right _ hmem
    obtain ⟨line, -, hline⟩ := List.mem_flatMap.1 hfileMem
    exact (segments_shaped line segment hline).text_ne_nil (List.flatMap_eq_nil_iff.1 hnil _ hmem)
  have h := cut
  rw [hfile] at h
  obtain ⟨hbehind, hinsert⟩ := fileSegments_insert h rfl hne
  refine ⟨hfile, hbehind, fun b rest hb => ?_⟩
  rw [kinds, hinsert b rest hb, List.filterMap_append]
  rfl

lemma comment_cut (cut : fileSegments file = front ++ .comment text :: behind)
    (after : hasToken behind) :
    ∃ line, 10 ∉ line ∧ text = 35 :: (line ++ [10]) ∧
      kinds file = front.filterMap Segment.token? ++ kinds (behind.flatMap Segment.text) ∧
      ∀ rest, kinds (front.flatMap Segment.text ++ 35 :: rest) =
        front.filterMap Segment.token? ++ kinds (35 :: rest) := by
  obtain ⟨token, htoken, hsome⟩ := after
  obtain ⟨hfile, hbehind, hinsert⟩ :=
    fileSegments_cut cut ⟨token, List.mem_cons_of_mem _ htoken, hsome⟩
  obtain ⟨rest, hrest, rfl, htail⟩ := fileSegments_eq_comment hbehind
  have hread : (readUntil 10 rest).2 = behind.flatMap Segment.text := by
    rw [htail, flatMap_text_fileSegments]
  rcases readUntil_cases rest with ⟨-, hend⟩ | ⟨line, hline, hfront⟩
  · rw [htail, hend] at htoken
    cases htoken
  · refine ⟨line, hline, by rw [hfront], ?_, fun rest => hinsert 35 rest (.inl rfl)⟩
    rw [hfile, hrest, hinsert 35 rest (.inl rfl), kinds_comment, hread]

/-- **Layout does not matter.** -/
lemma Gap.kinds_insert {before after inserted : Bytes} {inComment : Bool}
    (hgap : Gap file inComment before after) (hinserted : Layout inserted)
    (hcomment : inComment = true → 10 ∉ inserted) :
    kinds (before ++ inserted ++ after) = kinds file := by
  cases hgap with
  | outside front behind cut before after =>
    obtain ⟨hfile, hbehind, hinsert⟩ := fileSegments_cut cut after
    have hkinds : kinds file =
        front.filterMap Segment.token? ++ kinds (behind.flatMap Segment.text) := by
      rw [kinds, cut, List.filterMap_append, kinds, hbehind]
    rw [List.append_assoc, hkinds]
    cases hinserted with
    | nil => rw [List.nil_append, ← hfile, hkinds]
    | blank first others =>
      rw [List.cons_append, hinsert _ _ (.inr first), kinds_blank first, others.kinds_append]
    | comment inner others =>
      rw [List.cons_append, hinsert _ _ (.inl rfl), List.append_assoc, List.cons_append,
        kinds_comment_line inner, others.kinds_append]
  | behindComment front behind text cut before after =>
    obtain ⟨line, hline, htext, hkinds, hinsert⟩ := comment_cut cut after
    obtain rfl : text = 35 :: line := by
      rw [← List.cons_append] at htext
      exact List.append_cancel_right htext
    rw [List.append_assoc, List.append_assoc, List.cons_append, hinsert,
      hinserted.kinds_comment_append hline, hkinds]
  | inComment front behind done left cut begun more before after =>
    obtain ⟨line, hline, htext, hkinds, hinsert⟩ := comment_cut cut after
    obtain ⟨c, done, rfl⟩ := List.exists_cons_of_ne_nil begun
    obtain ⟨left, d, rfl⟩ := (List.eq_nil_or_concat' left).resolve_left more
    rw [List.cons_append, List.cons_eq_cons, ← List.append_assoc] at htext
    obtain ⟨rfl, htext⟩ := htext
    obtain ⟨rfl, ⟨⟩⟩ := List.append_inj' htext rfl
    have hmem : 10 ∉ done ++ (inserted ++ left) := by
      rw [List.mem_append] at hline
      rw [List.mem_append, List.mem_append]
      rintro (hdone | hins | hleft)
      · exact hline (.inl hdone)
      · exact hcomment rfl hins
      · exact hline (.inr hleft)
    have hjoin : front.flatMap Segment.text ++ 35 :: done ++ inserted ++
          (left ++ [10] ++ behind.flatMap Segment.text) =
        front.flatMap Segment.text ++
          35 :: (done ++ (inserted ++ left) ++ 10 :: behind.flatMap Segment.text) := by simp
    rw [hjoin, hinsert, kinds_comment_line hmem, hkinds]

/-! ### What is delivered -/

lemma spans_tokens (start : ℕ) (segments : List Segment) :
    (spans start segments).map Span.token = segments.filterMap Segment.token? := by
  induction segments generalizing start with
  | nil => rfl
  | cons segment segments ih =>
    rw [spans, List.map_append, ih]
    cases segment <;> rfl

lemma tokensFrom_kinds (lineNo : ℕ) (file : Bytes) :
    (tokensFrom lineNo file).map Prod.fst = kinds file := by
  rw [tokensFrom, kinds, fileSegments]
  induction lines file generalizing lineNo with
  | nil => rfl
  | cons line lines ih =>
    have hline : (scan (lineNo + 1) line.length 0 line).map Prod.fst =
        (segments line).filterMap Segment.token? := by
      rw [scan_eq_spans, List.map_map, ← spans_tokens 0]
      rfl
    rw [List.zipIdx_cons, List.flatMap_cons, List.map_append, ih, hline, List.flatMap_cons,
      List.filterMap_append]

/-- The tokens that `next_token` delivers of a file, however often it may be called. -/
def Delivers (file : Bytes) (tokens : List Token) : Prop :=
  ∃ calls, ∀ n > calls,
    ((TokenStream.new file).delivered n).map (List.map Prod.fst) = .ok tokens

lemma delivers_kinds (file : Bytes) : Delivers file (kinds file) := by
  refine ⟨(tokens file).length, fun n hn => ?_⟩
  rw [TokenStream.delivered_new file hn]
  exact congrArg Except.ok (tokensFrom_kinds 0 file)

/-- **Tokens and layout.** On every line the loop ends with no undefined behavior; the tokens it
pushes are found one behind the other, and between them are whitespace and at most one comment,
which ends the line. Whitespace and comments may therefore be inserted between two tokens, except
that a line break inside a comment ends it. -/
theorem layout_insensitive :
    (∀ (lineNo : ℕ) (line : Bytes) (tokBuffer : List (Token × Location)),
      scanLoop lineNo line (line.length + 1) 0 tokBuffer =
          .ok (tokBuffer ++ (spans 0 (segments line)).map (Span.located lineNo)) ∧
        (segments line).flatMap Segment.text = line ∧
        (∀ segment ∈ segments line, segment.Shaped) ∧
        (∀ segment ∈ (segments line).dropLast, segment.isComment = false) ∧
        (spans 0 (segments line)).Pairwise fun a b => a.start < a.stop ∧ a.stop ≤ b.start) ∧
    ∀ (file before after inserted : Bytes) (inComment : Bool), Gap file inComment before after →
      Layout inserted → (inComment = true → 10 ∉ inserted) →
      ∃ tokens, Delivers file tokens ∧ Delivers (before ++ inserted ++ after) tokens := by
  refine ⟨fun lineNo line tokBuffer => ⟨?_, flatMap_text_segments line, segments_shaped line,
    not_isComment_dropLast line, ?_⟩, ?_⟩
  · have hloop := scanLoop_eq lineNo [] (Nat.lt_succ_self line.length) tokBuffer
    rw [scan_eq lineNo (Nat.le_succ _) (Nat.le_refl _)] at hloop
    rw [← scan_eq_spans]
    exact hloop
  · exact pairwise_spans (fun segment hmem => (segments_shaped line segment hmem).text_ne_nil) 0
  · intro file before after inserted inComment hgap hins hcomment
    have hsame := delivers_kinds (before ++ inserted ++ after)
    rw [hgap.kinds_insert hins hcomment] at hsame
    exact ⟨kinds file, delivers_kinds file, hsame⟩

/-- A place inside the comment of `A # b`, with `C` on the next line. -/
lemma gap_comment : Gap [65, 32, 35, 32, 98, 10, 67] true [65, 32, 35, 32] [98, 10, 67] :=
  .inComment [.token (.identifier "A") [65], .blank [32]] [.token (.identifier "C") [67]]
    [35, 32] [98, 10] rfl (by decide) (by decide) ⟨_, .head _, rfl⟩ ⟨_, .head _, rfl⟩

theorem spaceInComment_insensitive : Layout [32] ∧
    ∃ tokens, Delivers [65, 32, 35, 32, 98, 10, 67] tokens ∧
      Delivers ([65, 32, 35, 32] ++ [32] ++ [98, 10, 67]) tokens := by
  have hlayout : Layout [32] := .blank (by decide) .nil
  exact ⟨hlayout, layout_insensitive.2 _ _ _ _ _ gap_comment hlayout fun _ => by decide⟩

/-- A line break ends the comment there, and what was a part of it is now a token. -/
theorem newlineInComment_changes :
    Gap [65, 32, 35, 32, 98, 10, 67] true [65, 32, 35, 32] [98, 10, 67] ∧ Layout [10] ∧
      Delivers [65, 32, 35, 32, 98, 10, 67] [.identifier "A", .identifier "C"] ∧
      Delivers ([65, 32, 35, 32] ++ [10] ++ [98, 10, 67])
        [.identifier "A", .identifier "b", .identifier "C"] :=
  ⟨gap_comment, .blank (by decide) .nil, delivers_kinds _, delivers_kinds _⟩

end Moulars.Sdl
