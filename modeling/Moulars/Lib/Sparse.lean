import Moulars.Lib.Wire

/-!
Lists sent as changes to a list both sides have.

Only the elements marked dirty are sent, after their number. Each comes with its index,
unless all are dirty and the index goes without saying. The reader starts from a base list
and reads every element that was sent over the one at its index.
-/

namespace Moulars.Lib.Sparse

open Lib.Wire

variable {α : Type}

/-! ### Reading and writing -/

section Reading

variable (readIndex : Reader ℕ) (bad : ℕ → Fault) (read : α → Reader α)

/-- One element for every `i` in the list, over the one at the index read or at `i` itself. -/
def readEach (readIndices : Bool) : List ℕ → List α → Reader (List α)
  | [], vs => pure vs
  | i :: is, vs => do
    let idx ← Reader.optional (readIndices = true) readIndex i
    match vs[idx]? with
    | some v => do
      let v ← read v
      readEach readIndices is (vs.set idx v)
    | none => Reader.fail (bad idx)

def readDirty (vs : List α) : Reader (List α) := do
  let count ← readIndex
  readEach readIndex bad read (count != vs.length) (List.range count) vs

end Reading

section Writing

variable (writeIndex : ℕ → Out)

/-- The dirty ones of the entries, the first of which has index `i`. -/
def writeEach (writeIndices : Bool) : ℕ → List (Bool × Out) → Out
  | _, [] => Out.put []
  | i, (false, _) :: es => writeEach writeIndices (i + 1) es
  | i, (true, w) :: es =>
    (if writeIndices then writeIndex i else Out.put []) ++
      (w ++ writeEach writeIndices (i + 1) es)

/-- Write the entries that are marked dirty, each with its own writer. -/
def writeDirty (es : List (Bool × Out)) : Out :=
  let count := es.countP Prod.fst
  writeIndex count ++ writeEach writeIndex (count != es.length) 0 es

variable {writeIndex}

lemma raises_writeEach {E : Fault → Prop} (hindex : ∀ i, (writeIndex i).Raises E)
    {es : List (Bool × Out)} (h : ∀ e ∈ es, e.2.Raises E) (writeIndices : Bool) (i : ℕ) :
    (writeEach writeIndex writeIndices i es).Raises E := by
  induction es generalizing i with
  | nil => exact .put _
  | cons e es ih =>
    obtain ⟨dirty, w⟩ := e
    have hrest := ih (fun e he => h e (by simp [he])) (i + 1)
    cases dirty with
    | false => exact hrest
    | true =>
      refine .append ?_ ((h (true, w) (by simp)).append hrest)
      cases writeIndices with
      | true => exact hindex i
      | false => exact .put _

lemma raises_writeDirty {E : Fault → Prop} (hindex : ∀ i, (writeIndex i).Raises E)
    {es : List (Bool × Out)} (h : ∀ e ∈ es, e.2.Raises E) : (writeDirty writeIndex es).Raises E :=
  (hindex _).append (raises_writeEach hindex h _ _)

end Writing

/-! ### Correctness -/

/-- The entries turn the list `bs` into `vs`: what is clean stays, what is dirty is read from
the bytes its writer produces. -/
inductive Turns (read : α → Reader α) : List (Bool × Out) → List α → List α → Prop
  | nil : Turns read [] [] []
  | clean {es bs vs} (w : Out) (a : α) (h : Turns read es bs vs) :
      Turns read ((false, w) :: es) (a :: bs) (a :: vs)
  | dirty {es bs vs w b v} (hw : ∀ c, w = .ok c → Reads (read b) c v)
      (h : Turns read es bs vs) : Turns read ((true, w) :: es) (b :: bs) (v :: vs)

namespace Turns

variable {read : α → Reader α} {es : List (Bool × Out)} {bs vs : List α}

lemma length_eq (h : Turns read es bs vs) : es.length = bs.length := by
  induction h with
  | nil => rfl
  | clean _ _ _ ih => simp [ih]
  | dirty _ _ ih => simp [ih]

lemma length_eq_right (h : Turns read es bs vs) : es.length = vs.length := by
  induction h with
  | nil => rfl
  | clean _ _ _ ih => simp [ih]
  | dirty _ _ ih => simp [ih]

end Turns

lemma writeDirty_clean {writeIndex : ℕ → Out} {es : List (Bool × Out)}
    (h : ∀ e ∈ es, e.1 = false) : writeDirty writeIndex es = writeIndex 0 ++ Out.put [] := by
  have heach (ix : Bool) (i : ℕ) : writeEach writeIndex ix i es = Out.put [] := by
    induction es generalizing i with
    | nil => rfl
    | cons e es ih =>
      obtain ⟨dirty, w⟩ := e
      obtain rfl : dirty = false := h _ (List.mem_cons_self ..)
      exact ih (fun e he => h e (by simp [he])) (i + 1)
  have hcount : es.countP Prod.fst = 0 := List.countP_eq_zero.2 fun e he => by simp [h e he]
  rw [writeDirty, hcount, heach]

section Correct

variable {readIndex : Reader ℕ} {bad : ℕ → Fault} {read : α → Reader α} {writeIndex : ℕ → Out}

lemma reads_round {ix : Bool} {is : List ℕ} {i : ℕ} {pre bs vs : List α} {b v : α}
    {ci c out : Bytes} (hi : Reads (Reader.optional (ix = true) readIndex i) ci pre.length)
    (hv : Reads (read b) c v)
    (hrest : Reads (readEach readIndex bad read ix is ((pre ++ [v]) ++ bs)) out
      ((pre ++ [v]) ++ vs)) :
    Reads (readEach readIndex bad read ix (i :: is) (pre ++ b :: bs)) (ci ++ (c ++ out))
      (pre ++ v :: vs) := by
  refine hi.bind ?_
  have hget : (pre ++ b :: bs)[pre.length]? = some b := by simp
  simp only [hget]
  refine hv.bind ?_
  have hset : (pre ++ b :: bs).set pre.length v = (pre ++ [v]) ++ bs := by simp
  rw [hset, show pre ++ v :: vs = (pre ++ [v]) ++ vs by simp]
  exact hrest

/-- With indices: one round for every dirty entry. What comes after the entries is left alone. -/
lemma reads_indexed {es : List (Bool × Out)} {bs vs : List α} (h : Turns read es bs vs)
    (pre tail : List α)
    (hidx : ∀ n < pre.length + es.length, ∀ c, writeIndex n = .ok c → Reads readIndex c n)
    {is : List ℕ} (his : is.length = es.countP Prod.fst) {out : Bytes}
    (hout : writeEach writeIndex true pre.length es = .ok out) :
    Reads (readEach readIndex bad read true is (pre ++ (bs ++ tail))) out
      (pre ++ (vs ++ tail)) := by
  induction h generalizing pre is out with
  | nil =>
    obtain rfl := List.length_eq_zero_iff.1 his
    obtain rfl := Out.put_eq_ok.1 hout
    exact Reads.pure _
  | @clean es bs vs w a _ ih =>
    have his' : is.length = es.countP Prod.fst := by simpa using his
    have hrest := ih (pre ++ [a]) (fun n hn => hidx n (by simp at hn ⊢; omega)) his'
      (by simpa [writeEach] using hout)
    simpa using hrest
  | @dirty es bs vs w b v hw _ ih =>
    obtain ⟨i, is, rfl⟩ : ∃ i is', is = i :: is' := by
      cases is with
      | nil => simp at his
      | cons i is => exact ⟨i, is, rfl⟩
    obtain ⟨ci, _, hci, hw', rfl⟩ := Out.append_eq_ok.1 hout
    obtain ⟨c, rest, hc, hrest, rfl⟩ := Out.append_eq_ok.1 hw'
    have hi : Reads readIndex ci pre.length := hidx _ (by simp) ci hci
    refine reads_round (Reads.optional_pos rfl hi) (hw c hc) ?_
    refine ih (pre ++ [v]) (fun n hn => hidx n (by simp at hn ⊢; omega)) (by simpa using his) ?_
    simpa using hrest

/-- Without indices: all the entries are dirty, and the rounds go along the list. -/
lemma reads_full {es : List (Bool × Out)} {bs vs : List α} (h : Turns read es bs vs)
    (pre tail : List α) (hall : ∀ e ∈ es, e.1 = true) {i : ℕ} {out : Bytes}
    (hout : writeEach writeIndex false i es = .ok out) :
    Reads (readEach readIndex bad read false (List.range' pre.length es.length)
      (pre ++ (bs ++ tail))) out (pre ++ (vs ++ tail)) := by
  induction h generalizing pre i out with
  | nil =>
    obtain rfl := Out.put_eq_ok.1 hout
    exact Reads.pure _
  | clean w a _ ih => simpa using hall _ (List.mem_cons_self ..)
  | @dirty es bs vs w b v hw _ ih =>
    obtain ⟨_, hw', rfl⟩ := Out.put_append_eq_ok.1 hout
    obtain ⟨c, rest, hc, hrest, rfl⟩ := Out.append_eq_ok.1 hw'
    rw [List.length_cons, List.range'_succ]
    refine reads_round (Reads.optional_neg (by simp)) (hw c hc) ?_
    have := ih (pre ++ [v]) (fun e he => hall e (by simp [he])) hrest
    simpa using this

/-- **What was sent is read back**: the reader turns the base list into the list written. -/
theorem reads_dirty {es : List (Bool × Out)} {bs vs : List α} (h : Turns read es bs vs)
    (hidx : ∀ n ≤ es.length, ∀ c, writeIndex n = .ok c → Reads readIndex c n) {out : Bytes}
    (hout : writeDirty writeIndex es = .ok out) :
    Reads (readDirty readIndex bad read bs) out vs := by
  obtain ⟨c, rest, hc, hrest, rfl⟩ := Out.append_eq_ok.1 hout
  refine (hidx _ List.countP_le_length c hc).bind ?_
  rw [← h.length_eq, ← List.append_nil bs, ← List.append_nil vs]
  by_cases hall : es.countP Prod.fst = es.length
  · rw [hall, bne_self_eq_false] at hrest ⊢
    rw [List.range_eq_range']
    exact reads_full h [] [] (List.countP_eq_length.1 hall) hrest
  · rw [bne_iff_ne.2 hall] at hrest ⊢
    exact reads_indexed h [] [] (fun n hn => hidx n (by simp at hn; omega)) (by simp) hrest

/-! ### Entries that cannot be read -/

lemma readEach_append (ix : Bool) (is js : List ℕ) (vs : List α) :
    readEach readIndex bad read ix (is ++ js) vs =
      readEach readIndex bad read ix is vs >>= readEach readIndex bad read ix js := by
  induction is generalizing vs with
  | nil => exact (pure_bind _ _).symm
  | cons i is ih =>
    simp only [List.cons_append, readEach, bind_assoc]
    congr 1
    funext idx
    cases vs[idx]? with
    | none => rfl
    | some v => simp only [bind_assoc, ih]

lemma writeEach_append (ix : Bool) (i : ℕ) (es fs : List (Bool × Out)) :
    writeEach writeIndex ix i (es ++ fs) =
      writeEach writeIndex ix i es ++ writeEach writeIndex ix (i + es.length) fs := by
  induction es generalizing i with
  | nil => exact (Out.nil_append _).symm
  | cons e es ih =>
    have hi : i + (e :: es).length = i + 1 + es.length := by simp only [List.length_cons]; omega
    obtain ⟨dirty, w⟩ := e
    cases dirty with
    | false => rw [hi]; exact ih (i + 1)
    | true => simp only [List.cons_append, writeEach, ih, hi, Out.append_assoc]

lemma ends_round {ix : Bool} {is : List ℕ} {i : ℕ} {pre bs : List α} {b : α} {ci c : Bytes}
    (hi : Reads (Reader.optional (ix = true) readIndex i) ci pre.length) (hv : Ends (read b) c)
    (rest : Bytes) :
    Ends (readEach readIndex bad read ix (i :: is) (pre ++ b :: bs)) (ci ++ (c ++ rest)) := by
  refine (hi.leads _).ends ?_
  have hget : (pre ++ b :: bs)[pre.length]? = some b := by simp
  simp only [hget]
  exact hv.bind _ rest

/-- **One entry that cannot be read** ends the reader, once it has read those before it. -/
theorem ends_dirty {es fs : List (Bool × Out)} {bs vs cs : List α} {w : Out} {b : α}
    (h : Turns read es bs vs) (hw : ∀ c, w = .ok c → Ends (read b) c) (hlen : fs.length = cs.length)
    (hidx : ∀ n ≤ es.length + (fs.length + 1), ∀ c, writeIndex n = .ok c → Reads readIndex c n)
    {out : Bytes} (hout : writeDirty writeIndex (es ++ (true, w) :: fs) = .ok out) :
    Ends (readDirty readIndex bad read (bs ++ b :: cs)) out := by
  have hcount : (es ++ (true, w) :: fs).countP Prod.fst =
      es.countP Prod.fst + (fs.countP Prod.fst + 1) := by simp
  have hes : es.countP Prod.fst ≤ es.length := List.countP_le_length
  have hfs : fs.countP Prod.fst ≤ fs.length := List.countP_le_length
  have hrange : List.range (es.countP Prod.fst + (fs.countP Prod.fst + 1)) =
      List.range' 0 (es.countP Prod.fst) ++ es.countP Prod.fst ::
        List.range' (es.countP Prod.fst + 1) (fs.countP Prod.fst) := by
    rw [List.range_eq_range', ← List.range'_append_1, Nat.zero_add, List.range'_succ]
  obtain ⟨c, _, hc, hrest, rfl⟩ := Out.append_eq_ok.1 hout
  rw [writeEach_append] at hrest
  obtain ⟨o, _, ho, hentry, rfl⟩ := Out.append_eq_ok.1 hrest
  obtain ⟨ci, _, hci, hvalue, rfl⟩ := Out.append_eq_ok.1 hentry
  obtain ⟨cw, rest, hcw, -, rfl⟩ := Out.append_eq_ok.1 hvalue
  rw [hcount] at hc ho hci
  rw [Nat.zero_add, h.length_eq_right] at hci
  have hsame : (bs ++ b :: cs).length = (es ++ (true, w) :: fs).length := by
    simp [h.length_eq, hlen]
  refine ((hidx _ (by omega) c hc).leads _).ends ?_
  rw [hsame, hrange, readEach_append]
  by_cases hall : es.countP Prod.fst + (fs.countP Prod.fst + 1) = (es ++ (true, w) :: fs).length
  · -- all the entries are dirty, those before this one too
    rw [bne_eq_false_iff_eq.2 hall] at ho hci ⊢
    have heq : es.countP Prod.fst = es.length := by
      simp only [List.length_append, List.length_cons] at hall
      omega
    obtain rfl := Out.put_eq_ok.1 hci
    rw [heq]
    refine ((reads_full h [] (b :: cs) (List.countP_eq_length.1 heq) ho).leads _).ends ?_
    rw [h.length_eq_right]
    exact ends_round (Reads.optional_neg (by simp)) (hw cw hcw) rest
  · rw [bne_iff_ne.2 hall] at ho hci ⊢
    have hidx' (n) (hn : n < List.length ([] : List α) + es.length) := hidx n (by simp at hn; omega)
    refine ((reads_indexed h [] (b :: cs) hidx' (by simp) ho).leads _).ends ?_
    refine ends_round (Reads.optional_pos rfl ?_) (hw cw hcw) rest
    exact hidx _ (by rw [← h.length_eq_right]; omega) ci hci

end Correct

end Moulars.Lib.Sparse
