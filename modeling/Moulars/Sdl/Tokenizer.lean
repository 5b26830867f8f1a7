import Moulars.Lib.Fallible
import Moulars.Lib.Slices
import Moulars.Sdl.Parser

/-!
`next_line` and `next_token` as they run: indices into a line buffer, loops that move them, and
reads that are not checked.

An index that is out of range, a slice that is not ASCII and a loop that does not end are errors of
the model. There are none of them: the tokens are those of `tokens`.
-/

namespace Moulars.Sdl

open Lib Lib.Wire Lib.Text Lib.Fallible

/-! ### The program -/

def getUnchecked (buf : Bytes) (i : ℕ) : Except Fault UInt8 :=
  match buf[i]? with
  | some b => .ok b
  | none => .error (.panic "undefined behavior: index out of bounds")

/-- `str::from_utf8_unchecked`, on bytes that have to be ASCII. -/
def fromUtf8Unchecked (bs : Bytes) : Except Fault String :=
  if bs.all (· < 128) then .ok (asciiText bs)
  else .error (.panic "undefined behavior: not ASCII")

def outOfRounds : Fault := .panic "the loop goes on"

/-- An inner loop, which moves the end of a token as long as the bytes pass a test. -/
def scanEnd (get : Bytes → ℕ → Except Fault UInt8) (p : UInt8 → Bool) (lineBuf : Bytes) :
    ℕ → ℕ → Except Fault ℕ
  | 0, _ => .error outOfRounds
  | n + 1, stop =>
    if stop < lineBuf.length then do
      if p (← get lineBuf stop) then scanEnd get p lineBuf n (stop + 1) else pure stop
    else pure stop

/-- One round of the loop of `next_line`: the token that is pushed, and the next `start`, or none
at a `break`. -/
def scanRound (lineBuf : Bytes) (start : ℕ) : Except Fault (Option Token × Option ℕ) := do
  let startCh ← getUnchecked lineBuf start
  let c := Char.ofNat startCh.toNat
  if c = '#' then pure (none, none)
  else if c ∈ [' ', '\t', '\r', '\n'] then pure (none, some (start + 1))
  else if c.isDigit ∨ c = '-' then do
    let stop ← scanEnd getUnchecked isNumeric lineBuf lineBuf.length (start + 1)
    let numValue ← fromUtf8Unchecked (← Slices.slice lineBuf start stop)
    pure (some (.number numValue), some stop)
  else if isLetter startCh ∨ c = '$' then do
    let stop ← scanEnd getUnchecked isWord lineBuf lineBuf.length (start + 1)
    let first ← Slices.get lineBuf start
    if first = 36 then do
      let statedesc ← Slices.slice lineBuf (start + 1) stop
      let text ← fromUtf8Unchecked statedesc
      -- a `$` with no identifier behind it is invalid
      if statedesc = [] then pure (some (.invalid c), some stop)
      else pure (some (.typeReference text), some stop)
    else do
      let ident ← fromUtf8Unchecked (← Slices.slice lineBuf start stop)
      pure (some (.identifier ident), some stop)
  else if c ∈ ['(', ')', '[', ']', '\x7b', '\x7d', '=', ',', ';'] then do
    let first ← Slices.get lineBuf start
    pure (some (.char (Char.ofNat first.toNat)), some (start + 1))
  else if c = '"' then do
    let stop ← scanEnd Slices.get (· ≠ 34) lineBuf lineBuf.length (start + 1)
    let literal ← Slices.slice lineBuf (start + 1) stop
    if stop < lineBuf.length then do
      let last ← Slices.get lineBuf stop
      if last = 34 then
        pure (some (.stringLiteral (String.ofList (fromUtf8Lossy literal))), some (stop + 1))
      else pure (some .incompleteString, none)
    else pure (some .incompleteString, none)
  else do
    let first ← Slices.get lineBuf start
    pure (some (.invalid (Char.ofNat first.toNat)), some (start + 1))

def scanLoop (lineNo : ℕ) (lineBuf : Bytes) :
    ℕ → ℕ → List (Token × Location) → Except Fault (List (Token × Location))
  | 0, _, _ => .error outOfRounds
  | n + 1, start, tokBuffer =>
    if start < lineBuf.length then do
      let (token, next) ← scanRound lineBuf start
      let tokBuffer := tokBuffer ++ token.toList.map fun t => (t, ⟨lineNo, start + 1⟩)
      match next with
      | some start => scanLoop lineNo lineBuf n start tokBuffer
      | none => pure tokBuffer
    else pure tokBuffer

/-- `Parser`: what is left to be read, the tokens not yet taken, and the number of the line. -/
structure TokenStream where
  stream : Bytes
  tokBuffer : List (Token × Location)
  lineNo : ℕ

/-- `read_until`: the bytes read, and those left. -/
def readUntil (delim : UInt8) : Bytes → Bytes × Bytes
  | [] => ([], [])
  | b :: rest =>
    if b = delim then ([b], rest)
    else (b :: (readUntil delim rest).1, (readUntil delim rest).2)

namespace TokenStream

def new (stream : Bytes) : TokenStream := ⟨stream, [], 0⟩

def nextLine (s : TokenStream) : Except Fault (Bool × TokenStream) :=
  let lineBuf := (readUntil 10 s.stream).1
  let stream := (readUntil 10 s.stream).2
  if lineBuf = [] then pure (false, { s with stream })
  else do
    let tokBuffer ← scanLoop (s.lineNo + 1) lineBuf (lineBuf.length + 1) 0 s.tokBuffer
    pure (true, ⟨stream, tokBuffer, s.lineNo + 1⟩)

/-- `next_token`, in at most the given number of rounds. -/
def nextToken : ℕ → TokenStream → Except Fault (Option (Token × Location) × TokenStream)
  | 0, _ => .error outOfRounds
  | n + 1, s =>
    match s.tokBuffer with
    | token :: tokBuffer => pure (some token, { s with tokBuffer })
    | [] => do
      let (more, s) ← s.nextLine
      if more then nextToken n s else pure (none, s)

/-- The tokens that `next_token` delivers, call by call, until there are no more; in at most the
given number of calls. -/
def delivered : ℕ → TokenStream → Except Fault (List (Token × Location))
  | 0, _ => .error outOfRounds
  | n + 1, s => do
    match ← s.nextToken (s.stream.length + 2) with
    | (some token, s) => do
      let tokens ← delivered n s
      pure (token :: tokens)
    | (none, _) => pure []

end TokenStream

/-! ### Loops over a line -/

section Line

lemma getUnchecked_append (before rest : Bytes) (b : UInt8) :
    getUnchecked (before ++ b :: rest) before.length = .ok b := by
  rw [getUnchecked, List.getElem?_append_right (Nat.le_refl _), Nat.sub_self]
  rfl

lemma slices_get_append (before rest : Bytes) (b : UInt8) :
    Slices.get (before ++ b :: rest) before.length = .ok b := by
  rw [Slices.get, List.getElem?_append_right (Nat.le_refl _), Nat.sub_self]
  rfl

lemma scanEnd_append {get : Bytes → ℕ → Except Fault UInt8}
    (hget : ∀ before rest b, get (before ++ b :: rest) before.length = .ok b) (p : UInt8 → Bool)
    (before rest : Bytes) {n : ℕ} (hn : rest.length < n) :
    scanEnd get p (before ++ rest) n before.length =
      .ok (before.length + (rest.takeWhile p).length) := by
  induction rest generalizing before n with
  | nil =>
    obtain ⟨n, rfl⟩ := Nat.exists_eq_add_one_of_ne_zero (Nat.ne_of_gt hn)
    rw [scanEnd, if_neg (by simp)]
    rfl
  | cons b rest ih =>
    obtain ⟨n, rfl⟩ := Nat.exists_eq_add_one_of_ne_zero (Nat.ne_zero_of_lt hn)
    rw [scanEnd, if_pos (by simp), hget]
    by_cases hb : p b = true
    · have hnext := ih (before ++ [b]) (Nat.lt_of_succ_lt_succ hn)
      rw [List.append_assoc, List.singleton_append, List.length_append, List.length_singleton,
        Nat.add_assoc, Nat.add_comm 1] at hnext
      rw [List.takeWhile_cons_of_pos hb]
      show (if p b = true then _ else _) = _
      rw [if_pos hb]
      exact hnext
    · rw [List.takeWhile_cons_of_neg hb]
      exact if_neg hb

lemma scanEnd_rest {get : Bytes → ℕ → Except Fault UInt8}
    (hget : ∀ before rest b, get (before ++ b :: rest) before.length = .ok b) (p : UInt8 → Bool)
    (before rest : Bytes) (b : UInt8) :
    scanEnd get p (before ++ b :: rest) (before ++ b :: rest).length (before.length + 1) =
      .ok (before.length + 1 + (rest.takeWhile p).length) := by
  have hn : rest.length < (before ++ b :: rest).length := by
    rw [List.length_append, List.length_cons]
    omega
  have hloop := scanEnd_append hget p (before ++ [b]) rest hn
  have hlen : (before ++ [b]).length = before.length + 1 := List.length_append
  rwa [List.append_assoc, List.singleton_append, hlen] at hloop

lemma slice_word (p : UInt8 → Bool) (before rest : Bytes) (b : UInt8) :
    Slices.slice (before ++ b :: rest) before.length
      (before.length + 1 + (rest.takeWhile p).length) = .ok (b :: rest.takeWhile p) := by
  have hslice := Slices.slice_append before (b :: rest.takeWhile p) (rest.dropWhile p) rfl rfl
  rw [List.cons_append, List.takeWhile_append_dropWhile, List.length_cons] at hslice
  rw [Nat.add_assoc, Nat.add_comm 1]
  exact hslice

lemma slice_rest (p : UInt8 → Bool) (before rest : Bytes) (b : UInt8) :
    Slices.slice (before ++ b :: rest) (before.length + 1)
      (before.length + 1 + (rest.takeWhile p).length) = .ok (rest.takeWhile p) := by
  have hslice := Slices.slice_append (before ++ [b]) (rest.takeWhile p) (rest.dropWhile p) rfl rfl
  rwa [List.takeWhile_append_dropWhile, List.append_assoc, List.singleton_append,
    List.length_append, List.length_singleton] at hslice

lemma fromUtf8Unchecked_eq {bs : Bytes} (h : ∀ b ∈ bs, b < 128) :
    fromUtf8Unchecked bs = .ok (asciiText bs) :=
  if_pos (List.all_eq_true.2 fun b hb => decide_eq_true (h b hb))

/-! ### What the tokens are made of is ASCII -/

lemma ascii_of_isNumeric (b : UInt8) : isNumeric b = true → b < 128 := by
  revert b
  exact uint8_all (by decide +kernel)

lemma ascii_of_isWord (b : UInt8) : isWord b = true → b < 128 := by
  revert b
  exact uint8_all (by decide +kernel)

lemma ascii_of_isLetter (b : UInt8) : isLetter b = true → b < 128 := by
  revert b
  exact uint8_all (by decide +kernel)

lemma ascii_of_digit (b : UInt8) :
    (Char.ofNat b.toNat).isDigit = true ∨ Char.ofNat b.toNat = '-' → b < 128 := by
  revert b
  exact uint8_all (by decide +kernel)

lemma ascii_takeWhile {p : UInt8 → Bool} (hp : ∀ b, p b = true → b < 128) (rest : Bytes) :
    ∀ b ∈ rest.takeWhile p, b < 128 := fun b hb => hp b (List.mem_takeWhile_imp hb)

lemma ascii_cons {p : UInt8 → Bool} (hp : ∀ b, p b = true → b < 128) {b : UInt8} (hb : b < 128)
    (rest : Bytes) : ∀ c ∈ b :: rest.takeWhile p, c < 128 := by
  rintro c (_ | ⟨_, hc⟩)
  · exact hb
  · exact ascii_takeWhile hp rest c hc

/-! ### Rounds -/

/-- A round of the list model, in terms of indices. -/
def Scanned.toRound (start : ℕ) : Scanned → Option Token × Option ℕ
  | .stop token => (token, none)
  | .go token taken => (token, some (start + 1 + taken))

lemma ofNat_eq_dollar (b : UInt8) : Char.ofNat b.toNat = '$' ↔ b = 36 := by
  revert b
  exact uint8_all (by decide +kernel)

lemma isLetter_ne_dollar (b : UInt8) : isLetter b = true → b ≠ 36 := by
  revert b
  exact uint8_all (by decide +kernel)

lemma exists_closing_quote {rest : Bytes} (h : (rest.takeWhile (· ≠ 34)).length < rest.length) :
    ∃ after, rest = rest.takeWhile (· ≠ 34) ++ 34 :: after := by
  induction rest with
  | nil => exact absurd h (Nat.lt_irrefl 0)
  | cons b rest ih =>
    by_cases hb : b = 34
    · subst hb
      exact ⟨rest, rfl⟩
    · have htake : (b :: rest).takeWhile (· ≠ 34) = b :: rest.takeWhile (· ≠ 34) :=
        List.takeWhile_cons_of_pos (decide_eq_true hb)
      rw [htake] at h ⊢
      obtain ⟨after, hafter⟩ := ih (Nat.lt_of_succ_lt_succ h)
      exact ⟨after, congrArg (b :: ·) hafter⟩

lemma get_closing_quote {rest : Bytes} (h : (rest.takeWhile (· ≠ 34)).length < rest.length)
    (before : Bytes) (b : UInt8) : Slices.get (before ++ b :: rest)
      (before.length + 1 + (rest.takeWhile (· ≠ 34)).length) = .ok 34 := by
  obtain ⟨after, hafter⟩ := exists_closing_quote h
  have hget := slices_get_append (before ++ b :: rest.takeWhile (· ≠ 34)) after 34
  rwa [List.append_assoc, List.cons_append, ← hafter, List.length_append, List.length_cons,
    Nat.add_comm _ 1, ← Nat.add_assoc] at hget

/-- **Every round is a round of the list model**: all indices are in range, and all slices taken as
text are ASCII. -/
lemma scanRound_eq (before rest : Bytes) (b : UInt8) :
    scanRound (before ++ b :: rest) before.length =
      .ok ((scanOne b rest).toRound before.length) := by
  refine bind_eq_ok.2 ⟨b, getUnchecked_append before rest b, ?_⟩
  rw [scanOne]
  simp only
  by_cases hhash : Char.ofNat b.toNat = '#'
  · rw [if_pos hhash, if_pos hhash]
    rfl
  rw [if_neg hhash, if_neg hhash]
  by_cases hblank : Char.ofNat b.toNat ∈ [' ', '\t', '\r', '\n']
  · rw [if_pos hblank, if_pos hblank]
    rfl
  rw [if_neg hblank, if_neg hblank]
  by_cases hdigit : (Char.ofNat b.toNat).isDigit = true ∨ Char.ofNat b.toNat = '-'
  · rw [if_pos hdigit, if_pos hdigit]
    refine bind_eq_ok.2 ⟨_, scanEnd_rest getUnchecked_append isNumeric before rest b, ?_⟩
    refine bind_eq_ok.2 ⟨_, slice_word isNumeric before rest b, ?_⟩
    have hascii := ascii_cons ascii_of_isNumeric (ascii_of_digit b hdigit) rest
    exact bind_eq_ok.2 ⟨_, fromUtf8Unchecked_eq hascii, rfl⟩
  rw [if_neg hdigit, if_neg hdigit]
  by_cases hdollar : Char.ofNat b.toNat = '$'
  · rw [if_pos (Or.inr hdollar), if_pos hdollar]
    refine bind_eq_ok.2 ⟨_, scanEnd_rest getUnchecked_append isWord before rest b, ?_⟩
    refine bind_eq_ok.2 ⟨b, slices_get_append before rest b, ?_⟩
    rw [if_pos ((ofNat_eq_dollar b).1 hdollar)]
    refine bind_eq_ok.2 ⟨_, slice_rest isWord before rest b, ?_⟩
    refine bind_eq_ok.2 ⟨_, fromUtf8Unchecked_eq (ascii_takeWhile ascii_of_isWord rest), ?_⟩
    by_cases hempty : rest.takeWhile isWord = []
    · rw [if_pos hempty, if_pos hempty, hempty]
      rfl
    · rw [if_neg hempty, if_neg hempty]
      rfl
  rw [if_neg hdollar]
  by_cases hletter : isLetter b = true
  · rw [if_pos (Or.inl hletter), if_pos hletter]
    refine bind_eq_ok.2 ⟨_, scanEnd_rest getUnchecked_append isWord before rest b, ?_⟩
    refine bind_eq_ok.2 ⟨b, slices_get_append before rest b, ?_⟩
    rw [if_neg (isLetter_ne_dollar b hletter)]
    refine bind_eq_ok.2 ⟨_, slice_word isWord before rest b, ?_⟩
    have hascii := ascii_cons ascii_of_isWord (ascii_of_isLetter b hletter) rest
    exact bind_eq_ok.2 ⟨_, fromUtf8Unchecked_eq hascii, rfl⟩
  rw [if_neg (not_or.2 ⟨hletter, hdollar⟩), if_neg hletter]
  by_cases hchar : Char.ofNat b.toNat ∈ ['(', ')', '[', ']', '\x7b', '\x7d', '=', ',', ';']
  · rw [if_pos hchar, if_pos hchar]
    exact bind_eq_ok.2 ⟨b, slices_get_append before rest b, rfl⟩
  rw [if_neg hchar, if_neg hchar]
  by_cases hquote : Char.ofNat b.toNat = '"'
  · rw [if_pos hquote, if_pos hquote]
    refine bind_eq_ok.2 ⟨_, scanEnd_rest slices_get_append (· ≠ 34) before rest b, ?_⟩
    refine bind_eq_ok.2 ⟨_, slice_rest (· ≠ 34) before rest b, ?_⟩
    by_cases hclosed : (rest.takeWhile (· ≠ 34)).length < rest.length
    · have hstop : before.length + 1 + (rest.takeWhile (· ≠ 34)).length <
          (before ++ b :: rest).length := by
        rw [List.length_append, List.length_cons]
        omega
      rw [if_pos hstop, if_pos hclosed]
      exact bind_eq_ok.2 ⟨34, get_closing_quote hclosed before b, rfl⟩
    · have hopen : ¬ before.length + 1 + (rest.takeWhile (· ≠ 34)).length <
          (before ++ b :: rest).length := by
        rw [List.length_append, List.length_cons]
        omega
      rw [if_neg hopen, if_neg hclosed]
      rfl
  · rw [if_neg hquote, if_neg hquote]
    exact bind_eq_ok.2 ⟨b, slices_get_append before rest b, rfl⟩

lemma taken_le {b : UInt8} {rest : Bytes} {token : Option Token} {taken : ℕ}
    (h : scanOne b rest = .go token taken) : taken ≤ rest.length := by
  have hword (p : UInt8 → Bool) : (rest.takeWhile p).length ≤ rest.length :=
    (List.takeWhile_sublist p).length_le
  unfold scanOne at h
  simp only at h
  split at h
  · cases h
  split at h
  · cases h
    exact Nat.zero_le _
  split at h
  · cases h
    exact hword isNumeric
  split at h
  · split at h
    · cases h
      exact Nat.zero_le _
    · cases h
      exact hword isWord
  split at h
  · cases h
    exact hword isWord
  split at h
  · cases h
    exact Nat.zero_le _
  split at h
  · split at h
    · rename_i hclosed
      cases h
      exact hclosed
    · cases h
  · cases h
    exact Nat.zero_le _

lemma scanLoop_eq (lineNo : ℕ) {n : ℕ} (before : Bytes) {bs : Bytes} (hn : bs.length < n)
    (tokBuffer : List (Token × Location)) :
    scanLoop lineNo (before ++ bs) n before.length tokBuffer =
      .ok (tokBuffer ++ scan lineNo n before.length bs) := by
  induction n generalizing before bs tokBuffer with
  | zero => exact absurd hn (Nat.not_lt_zero _)
  | succ n ih =>
    cases bs with
    | nil =>
      have hscan : scan lineNo (n + 1) before.length [] = [] := rfl
      rw [scanLoop, if_neg (by simp), hscan, List.append_nil]
      rfl
    | cons b rest =>
      rw [scanLoop, if_pos (by simp), scan]
      refine bind_eq_ok.2 ⟨_, scanRound_eq before rest b, ?_⟩
      cases hscan : scanOne b rest with
      | stop token => rfl
      | go token taken =>
        have htaken := taken_le hscan
        have hbefore : (before ++ b :: rest.take taken).length = before.length + 1 + taken := by
          rw [List.length_append, List.length_cons, List.length_take, Nat.min_eq_left htaken]
          omega
        have hline : before ++ b :: rest =
            (before ++ b :: rest.take taken) ++ rest.drop taken := by
          rw [List.append_assoc, List.cons_append, List.take_append_drop]
        have hdrop : (rest.drop taken).length < n := by
          rw [List.length_cons] at hn
          rw [List.length_drop]
          omega
        have hnext := ih (before ++ b :: rest.take taken) hdrop
          (tokBuffer ++ token.toList.map fun t => (t, ⟨lineNo, before.length + 1⟩))
        rw [← hline, hbefore, List.append_assoc] at hnext
        exact hnext

end Line

/-! ### Lines -/

lemma linesFrom_eq {bs : Bytes} (h : bs ≠ []) (line : Bytes) :
    linesFrom line bs = (line.reverse ++ (readUntil 10 bs).1) :: lines (readUntil 10 bs).2 := by
  induction bs generalizing line with
  | nil => exact absurd rfl h
  | cons b rest ih =>
    rw [linesFrom, readUntil]
    split
    · rw [List.reverse_cons]
      rfl
    · cases rest with
      | nil =>
        rw [linesFrom, if_neg (List.cons_ne_nil b line), List.reverse_cons]
        rfl
      | cons c rest =>
        rw [ih (List.cons_ne_nil c rest), List.reverse_cons, List.append_assoc]
        rfl

lemma lines_eq {bs : Bytes} (h : bs ≠ []) :
    lines bs = (readUntil 10 bs).1 :: lines (readUntil 10 bs).2 := linesFrom_eq h []

lemma readUntil_ne_nil {bs : Bytes} (h : bs ≠ []) : (readUntil 10 bs).1 ≠ [] := by
  cases bs with
  | nil => exact absurd rfl h
  | cons b rest =>
    rw [readUntil]
    split
    · exact List.cons_ne_nil _ _
    · exact List.cons_ne_nil _ _

lemma readUntil_append (bs : Bytes) : (readUntil 10 bs).1 ++ (readUntil 10 bs).2 = bs := by
  induction bs with
  | nil => rfl
  | cons b rest ih =>
    rw [readUntil]
    split
    · rfl
    · exact congrArg (b :: ·) ih

/-- All the tokens of some lines, the first of which has this number. -/
def tokensFrom (lineNo : ℕ) (bs : Bytes) : List (Token × Location) :=
  ((lines bs).zipIdx lineNo).flatMap fun line => scan (line.2 + 1) line.1.length 0 line.1

lemma tokensFrom_eq (lineNo : ℕ) {bs : Bytes} (h : bs ≠ []) : tokensFrom lineNo bs =
    scan (lineNo + 1) (readUntil 10 bs).1.length 0 (readUntil 10 bs).1 ++
      tokensFrom (lineNo + 1) (readUntil 10 bs).2 := by
  rw [tokensFrom, lines_eq h, List.zipIdx_cons, List.flatMap_cons]
  rfl

namespace TokenStream

/-- The tokens that are still to be delivered. -/
def pending (s : TokenStream) : List (Token × Location) :=
  s.tokBuffer ++ tokensFrom s.lineNo s.stream

lemma nextLine_eq {s : TokenStream} (h : s.stream ≠ []) :
    ∃ s', s.nextLine = .ok (true, s') ∧ s'.pending = s.pending ∧
      s'.stream.length < s.stream.length := by
  have hline := readUntil_ne_nil h
  have hscan := scanLoop_eq (s.lineNo + 1) [] (Nat.lt_succ_self (readUntil 10 s.stream).1.length)
    s.tokBuffer
  rw [scan_eq (s.lineNo + 1) (Nat.le_succ _) (Nat.le_refl _)] at hscan
  refine ⟨⟨(readUntil 10 s.stream).2, s.tokBuffer ++ scan (s.lineNo + 1)
    (readUntil 10 s.stream).1.length 0 (readUntil 10 s.stream).1, s.lineNo + 1⟩, ?_, ?_, ?_⟩
  · rw [nextLine, if_neg hline]
    exact bind_eq_ok.2 ⟨_, hscan, rfl⟩
  · rw [pending, pending, tokensFrom_eq s.lineNo h, List.append_assoc]
  · have hlen := congrArg List.length (readUntil_append s.stream)
    have hpos := List.length_pos_iff.2 hline
    rw [List.length_append] at hlen
    show (readUntil 10 s.stream).2.length < _
    omega

lemma nextToken_eq {n : ℕ} {s : TokenStream} (hn : s.stream.length + 1 < n) :
    ∃ s', s.nextToken n = .ok (s.pending.head?, s') ∧ s'.pending = s.pending.tail := by
  induction n generalizing s with
  | zero => exact absurd hn (Nat.not_lt_zero _)
  | succ n ih =>
    obtain ⟨stream, tokBuffer, lineNo⟩ := s
    cases tokBuffer with
    | cons token tokBuffer => exact ⟨⟨stream, tokBuffer, lineNo⟩, rfl, rfl⟩
    | nil =>
      by_cases hend : stream = []
      · subst hend
        exact ⟨⟨[], [], lineNo⟩, rfl, rfl⟩
      · obtain ⟨s₁, hline, hpending, hlen⟩ := nextLine_eq (s := ⟨stream, [], lineNo⟩) hend
        obtain ⟨s', hnext, hs'⟩ := ih (s := s₁) (by simp only at hlen hn; omega)
        rw [hpending] at hnext hs'
        exact ⟨s', bind_eq_ok.2 ⟨_, hline, hnext⟩, hs'⟩

lemma delivered_eq {n : ℕ} {s : TokenStream} (hn : s.pending.length < n) :
    s.delivered n = .ok s.pending := by
  induction n generalizing s with
  | zero => exact absurd hn (Nat.not_lt_zero _)
  | succ n ih =>
    obtain ⟨s', hnext, hs'⟩ := nextToken_eq (Nat.lt_succ_self (s.stream.length + 1))
    rw [delivered]
    refine bind_eq_ok.2 ⟨_, hnext, ?_⟩
    cases hpending : s.pending with
    | nil => rfl
    | cons token tokens =>
      rw [hpending] at hs' hn
      have hrest := ih (s := s') (by rw [hs']; exact Nat.lt_of_succ_lt_succ hn)
      rw [hs'] at hrest
      exact bind_eq_ok.2 ⟨_, hrest, rfl⟩

/-- **The tokens delivered are those of the list model.** -/
lemma delivered_new (file : Bytes) {n : ℕ} (hn : (tokens file).length < n) :
    (new file).delivered n = .ok (tokens file) := delivered_eq hn

end TokenStream

end Moulars.Sdl
