import Moulars.Lib.AsyncRead

/-!
Workers that read one message after another from a connection, and handle each before they
read the next.

Bytes arrive in any pieces and at any time, and a turn of the loop reads as far as they reach.
The rule for such a worker is `served`: what every handled message does to the worker's state is
shown once, and it then holds of the messages that the bytes received decode to, in any run.
-/

namespace Moulars.Lib.MessageLoop

open Lib.Wire Lib.Clients Lib.AsyncRead

variable {α β σ ε : Type}

/-! ### The loop -/

inductive Status
  | running
  /-- a handler has asked to drop the client -/
  | dropped
  /-- the next message could not be read -/
  | failed (e : Fault)
  deriving DecidableEq

/-- A connection with its worker's state, and all the bytes received so far. -/
structure Loop (α σ : Type) where
  avail : Bytes
  closed : Bool
  future : Future α
  status : Status
  received : Bytes
  state : σ

inductive LoopEvent (ε : Type)
  /-- bytes arrive -/
  | arrive (bs : Bytes)
  /-- the client closes the connection -/
  | close
  /-- one turn of the loop; `env` is what the handler meets, if it is called -/
  | turn (env : ε)

section Step

variable (p : AsyncReader α) (handle : ε → α → σ → Bool × σ)

def Loop.start (s : σ) : Loop α σ := ⟨[], false, .start p, .running, [], s⟩

/-- Read on, and handle the message if it is complete. -/
def Loop.turn (c : Loop α σ) (env : ε) : Loop α σ :=
  match c.future.poll c.closed c.avail with
  | .pending future => { c with avail := [], future }
  | .ready (.ok message) left =>
    { c with avail := left, future := .start p, state := (handle env message c.state).2,
             status := if (handle env message c.state).1 then .running else .dropped }
  | .ready (.error e) left => { c with avail := left, status := .failed e }
  | .ready .crash left => { c with avail := left, status := .failed (.panic "") }

def Loop.step (c : Loop α σ) : LoopEvent ε → Loop α σ
  | .arrive bs =>
    if c.closed then c else { c with avail := c.avail ++ bs, received := c.received ++ bs }
  | .close => { c with closed := true }
  | .turn env => match c.status with
    | .running => c.turn p handle env
    | _ => c

def Loop.run (s : σ) (events : List (LoopEvent ε)) : Loop α σ :=
  events.foldl (Loop.step p handle) (Loop.start p s)

end Step

/-! ### The rule -/

/-- `I` holds of the messages handled so far, in the order in which they were sent, and the state;
or, once the worker has dropped its client, `J` does. A worker that waits for more bytes has
handled all that was sent, and so has one that gave up. -/
structure Served (p : AsyncReader α) (I J : List α → σ → Prop) (c : Loop α σ) : Prop where
  running : c.status = .running → ∃ done rest, decode p c.received = done ++ rest ∧
    I done c.state ∧ (c.avail = [] → rest = [])
  dropped : c.status = .dropped → ∃ done rest, decode p c.received = done ++ rest ∧
    J done c.state
  failed : ∀ e, c.status = .failed e → I (decode p c.received) c.state

/-- The messages in `done` are those of the first bytes received; what is left of the bytes is in
the future or has not been taken. -/
structure Inv (p : AsyncReader α) (I J : List α → σ → Prop) (c : Loop α σ) : Prop where
  future : c.future.Resumes p
  waits : c.future.taken = [] ∨ (toReader p).run c.future.taken = .error .eof
  split : ∃ done used rest, c.received = used ++ rest ∧
    (∀ more, decode p (used ++ more) = done ++ decode p more) ∧
    (c.status = .running → I done c.state ∧ rest = c.future.taken ++ c.avail) ∧
    (c.status = .dropped → J done c.state) ∧
    ∀ e, c.status = .failed e → I done c.state ∧ Fails p c.closed rest e

section Rule

variable {p : AsyncReader α} {handle : ε → α → σ → Bool × σ} {I J : List α → σ → Prop}

lemma Inv.start {s : σ} (h : I [] s) : Inv p I J (Loop.start p s) where
  future := .start _
  waits := .inl rfl
  split := ⟨[], [], [], rfl, fun _ => rfl, fun _ => ⟨h, rfl⟩, nofun, nofun⟩

section

variable (hp : Consumes p)
  (hgo : ∀ env message done s, I done s → (handle env message s).1 = true →
    I (done ++ [message]) (handle env message s).2)
  (hstop : ∀ env message done s, I done s → (handle env message s).1 = false →
    J (done ++ [message]) (handle env message s).2)

include hp hgo hstop

lemma Inv.turn {c : Loop α σ} (h : Inv p I J c) (hrun : c.status = .running) (env : ε) :
    Inv p I J (c.turn p handle env) := by
  obtain ⟨hfuture, hwaits, done, used, rest, hrec, hdec, hrunning, -, -⟩ := h
  obtain ⟨hI, hrest⟩ := hrunning hrun
  have hpoll := hfuture.poll c.closed c.avail
  rw [← hrest] at hpoll
  unfold Loop.turn
  split
  · -- the message is not there yet
    rename_i future hfut
    rw [hfut] at hpoll
    obtain ⟨hres, htaken, heof⟩ := hpoll
    refine ⟨hres, .inr (htaken ▸ heof), done, used, rest, hrec, hdec, fun _ => ⟨hI, ?_⟩, ?_, ?_⟩
    · rw [htaken, List.append_nil]
    · intro hdrop
      rw [show c.status = .dropped from hdrop] at hrun
      cases hrun
    · intro e hfail
      rw [show c.status = .failed e from hfail] at hrun
      cases hrun
  · -- a whole message
    rename_i message left hfut
    rw [hfut] at hpoll
    obtain ⟨more, hsplit, hmore⟩ := run_split hpoll
    refine ⟨.start _, .inl rfl, done ++ [message], used ++ more, left, ?_, fun rest' => ?_, ?_⟩
    · rw [hrec, hsplit, List.append_assoc]
    · rw [List.append_assoc, hdec, decode_of_ok hp (hmore rest')]
      simp
    · cases hgoOn : (handle env message c.state).1 with
      | true =>
        exact ⟨fun _ => ⟨hgo env message done c.state hI hgoOn, rfl⟩, nofun, nofun⟩
      | false =>
        exact ⟨nofun, fun _ => hstop env message done c.state hI hgoOn, nofun⟩
  · rename_i e left hfut
    rw [hfut] at hpoll
    refine ⟨hfuture, hwaits, done, used, rest, hrec, hdec, nofun, nofun, fun e' he => ⟨hI, ?_⟩⟩
    cases he
    exact hpoll
  · rename_i left hfut
    rw [hfut] at hpoll
    refine ⟨hfuture, hwaits, done, used, rest, hrec, hdec, nofun, nofun, fun e' he => ⟨hI, ?_⟩⟩
    cases he
    exact hpoll

lemma Inv.step {c : Loop α σ} (h : Inv p I J c) (e : LoopEvent ε) :
    Inv p I J (c.step p handle e) := by
  cases e with
  | arrive bs =>
    rw [Loop.step]
    split
    · exact h
    · rename_i hopen
      obtain ⟨hfuture, hwaits, done, used, rest, hrec, hdec, hrunning, hdropped, hfailed⟩ := h
      refine ⟨hfuture, hwaits, done, used, rest ++ bs, ?_, hdec, fun hrun => ?_, hdropped,
        fun e hfail => ?_⟩
      · show c.received ++ bs = _
        rw [hrec, List.append_assoc]
      · obtain ⟨hI, hrest⟩ := hrunning hrun
        exact ⟨hI, by rw [hrest, List.append_assoc]⟩
      · obtain ⟨hI, hf⟩ := hfailed e hfail
        have hmore := hf.2 (by simpa using hopen)
        exact ⟨hI, hmore bs, fun _ more => by rw [List.append_assoc]; exact hmore _⟩
  | close =>
    obtain ⟨hfuture, hwaits, done, used, rest, hrec, hdec, hrunning, hdropped, hfailed⟩ := h
    exact ⟨hfuture, hwaits, done, used, rest, hrec, hdec, hrunning, hdropped,
      fun e he => ⟨(hfailed e he).1, (hfailed e he).2.1, nofun⟩⟩
  | turn env =>
    rw [Loop.step]
    split
    · rename_i hrun
      exact h.turn hp hgo hstop hrun env
    · exact h

lemma Inv.run {s : σ} (hstart : I [] s) (events : List (LoopEvent ε)) :
    Inv p I J (Loop.run p handle s events) := by
  have hfold (c : Loop α σ) (hc : Inv p I J c) :
      Inv p I J (events.foldl (Loop.step p handle) c) := by
    induction events generalizing c with
    | nil => exact hc
    | cons e events ih => exact ih _ (hc.step hp hgo hstop e)
  exact hfold _ (.start hstart)

end

/-- A reader that has taken nothing is dropped. -/
lemma Inv.interrupt {c : Loop α σ} (h : Inv p I J c) (hrun : c.status = .running)
    (htaken : c.future.taken = []) {status : Status}
    (hgoes : ∀ done, I done c.state →
      (status = .running → I done c.state) ∧ (status = .dropped → J done c.state))
    (hfails : ∀ e, status ≠ .failed e) :
    Inv p I J { c with future := .start p, status } := by
  obtain ⟨-, -, done, used, rest, hrec, hdec, hrunning, -, -⟩ := h
  obtain ⟨hI, hrest⟩ := hrunning hrun
  rw [htaken] at hrest
  exact ⟨.start _, .inl rfl, done, used, rest, hrec, hdec, fun hs => ⟨(hgoes done hI).1 hs, hrest⟩,
    (hgoes done hI).2, fun e he => absurd he (hfails e)⟩

lemma Inv.served {c : Loop α σ} (h : Inv p I J c) : Served p I J c := by
  obtain ⟨-, hwaits, done, used, rest, hrec, hdec, hrunning, hdropped, hfailed⟩ := h
  refine ⟨fun hrun => ?_, fun hdrop => ?_, fun e hfail => ?_⟩
  · obtain ⟨hI, hrest⟩ := hrunning hrun
    refine ⟨done, decode p rest, by rw [hrec, hdec], hI, fun havail => ?_⟩
    rw [hrest, havail, List.append_nil]
    rcases hwaits with htaken | heof
    · rw [htaken]
      rfl
    · exact decode_of_error heof
  · exact ⟨done, decode p rest, by rw [hrec, hdec], hdropped hdrop⟩
  · obtain ⟨hI, hf⟩ := hfailed e hfail
    rw [hrec, hdec, decode_of_error hf.1, List.append_nil]
    exact hI

/-- **The rule for a worker**: if `I` holds at the start and every handler keeps it, as long as it
asks to go on, then it holds in every run of the messages that the bytes received decode to. -/
lemma served (hp : Consumes p) {s : σ} (hstart : I [] s)
    (hgo : ∀ env message done s, I done s → (handle env message s).1 = true →
      I (done ++ [message]) (handle env message s).2)
    (hstop : ∀ env message done s, I done s → (handle env message s).1 = false →
      J (done ++ [message]) (handle env message s).2) (events : List (LoopEvent ε)) :
    Served p I J (Loop.run p handle s events) :=
  (Inv.run hp hgo hstop hstart events).served

end Rule

/-! ### Streams of encoded messages -/

section Encoded

variable {p : AsyncReader α} {enc : β → Bytes} {f : β → α}

lemma decode_flatMap (hp : Consumes p) (bs : List β)
    (h : ∀ b ∈ bs, Reads (toReader p) (enc b) (f b)) (rest : Bytes) :
    decode p (bs.flatMap enc ++ rest) = bs.map f ++ decode p rest := by
  induction bs with
  | nil => rfl
  | cons b bs ih =>
    have hread := h b (by simp) (bs.flatMap enc ++ rest)
    rw [List.flatMap_cons, List.append_assoc, decode_of_ok hp hread,
      ih fun c hc => h c (by simp [hc])]
    rfl

lemma decode_cut {bs cut : Bytes} {a : α} (h : Reads (toReader p) bs a) (hcut : cut <+: bs)
    (hne : cut ≠ bs) : decode p cut = [] := by
  obtain ⟨more, rfl⟩ := hcut
  cases hrun : (toReader p).run cut with
  | error e => exact decode_of_error hrun
  | ok v =>
    -- the message read from the part would be the whole one
    obtain ⟨b, r⟩ := v
    obtain ⟨used, rfl, hused⟩ := run_split hrun
    have hwhole := h []
    rw [List.append_nil, List.append_assoc, hused] at hwhole
    have hnil : r ++ more = [] := (Prod.mk.inj (Except.ok.inj hwhole)).2
    rw [(List.append_eq_nil_iff.1 hnil).2, List.append_nil] at hne
    exact absurd rfl hne

end Encoded

/-! ### What has been written -/

/-- `out` is what `w` writes for these messages, one after another; all of them have `P`. -/
def Sent (w : α → Out) (P : α → Prop) (messages : List α) (out : Bytes) : Prop :=
  ∃ sent : List (α × Bytes), sent.map Prod.fst = messages ∧
    (∀ m ∈ sent, P m.1 ∧ w m.1 = .ok m.2) ∧ out = sent.flatMap Prod.snd

namespace Sent

variable {p : AsyncReader α} {w : α → Out} {P : α → Prop} {messages : List α} {out : Bytes}

lemma nil : Sent w P [] [] := ⟨[], rfl, nofun, rfl⟩

lemma snoc (h : Sent w P messages out) {a : α} {b : Bytes} (ha : P a) (hb : w a = .ok b) :
    Sent w P (messages ++ [a]) (out ++ b) := by
  obtain ⟨sent, rfl, hwrite, rfl⟩ := h
  refine ⟨sent ++ [(a, b)], by simp, fun m hm => ?_, by simp⟩
  rcases List.mem_append.1 hm with hm | hm
  · exact hwrite m hm
  · rw [List.mem_singleton.1 hm]
    exact ⟨ha, hb⟩

variable (hp : Consumes p) (hread : ∀ a, P a → ReadsBack p (w a) a)

include hp hread

lemma decode_append (h : Sent w P messages out) (rest : Bytes) :
    decode p (out ++ rest) = messages ++ decode p rest := by
  obtain ⟨sent, rfl, hwrite, rfl⟩ := h
  exact decode_flatMap hp sent (fun m hm => hread m.1 (hwrite m hm).1 m.2 (hwrite m hm).2) rest

lemma decode (h : Sent w P messages out) : AsyncRead.decode p out = messages := by
  have hdecode := h.decode_append hp hread []
  rw [List.append_nil] at hdecode
  rw [hdecode]
  exact List.append_nil _

/-- Of a message that was not written to its end, nothing is read. -/
lemma decode_take (h : Sent w P messages out) {a : α} {b : Bytes} (ha : P a) (hb : w a = .ok b)
    {n : ℕ} (hn : n < b.length) : AsyncRead.decode p (out ++ b.take n) = messages := by
  have hcut : AsyncRead.decode p (b.take n) = [] := by
    refine decode_cut (hread a ha b hb) (List.take_prefix _ _) fun heq => ?_
    have hlen := congrArg List.length heq
    rw [List.length_take] at hlen
    omega
  rw [h.decode_append hp hread, hcut, List.append_nil]

end Sent

end Moulars.Lib.MessageLoop
