import DriveWire.Attach.Lifetime
import DriveWire.Cli.Escape
import DriveWire.Cli.LineEndings
import DriveWire.Vserial.Frames
import DriveWire.Vserial.PollLoop

/-! # From the Keyboard to the Guest and Back

    `dw attach` is the peer of an attach session.  What is typed goes through
    the escape, the socket, the inbound task and the outbox to a guest that
    polls; what guests write to the channel goes through the inbox, the
    outbound task, the socket and the normalisation to the screen.  On both
    ways every byte is, in order, at one place. -/

namespace DriveWire

open Async Server Streams

namespace Cli

/-! ## Section 1: The client -/

/-- One round of `stdin_to_sock`.  Of what is not accepted the socket may have
    taken the first `k` bytes. -/
def keysRound (round : Round) (k : Nat) (c : Copied) : Copied :=
  if round.bytes = [] then { c with ended := .eof }
  else
    match processBuffer round.bytes c.flag [] with
    | (action, escapeArmed, out) =>
      if out ≠ [] ∧ round.accepted = false then ⟨c.written ++ out.take k, escapeArmed, .refused⟩
      else if action = .exit then ⟨c.written ++ out, escapeArmed, .exited⟩
      else ⟨c.written ++ out, escapeArmed, .reading⟩

/-- One round of `sock_to_stdout`. -/
def screenRound (translate : Bool) (round : Round) (k : Nat) (c : Copied) : Copied :=
  if round.bytes = [] then { c with ended := .eof }
  else
    match (if translate then normalizeLineEndings round.bytes c.flag
      else (round.bytes, c.flag)) with
    | (payload, hadCr) =>
      if round.accepted = false then ⟨c.written ++ payload.take k, hadCr, .refused⟩
      else ⟨c.written ++ payload, hadCr, .reading⟩

inductive Connection where
  | connecting : Connection
  | copying    : Connection
  | left       : Connection

/-- `attach`, with what has passed through its standard streams and its
    socket. -/
structure Terminal where
  connection : Connection
  /-- The bytes that stdin has returned. -/
  typed      : List UInt8
  /-- `stdin_to_sock` -/
  keys       : Copied
  /-- How many bytes the server has read from the socket. -/
  taken      : Nat
  /-- The bytes that the server has written to it. -/
  sent       : List UInt8
  /-- How many of them `sock_to_stdout` has read. -/
  seen       : Nat
  /-- `sock_to_stdout` -/
  screen     : Copied

namespace Terminal

def new : Terminal := ⟨.connecting, [], ⟨[], false, .reading⟩, 0, [], 0, ⟨[], false, .reading⟩⟩

/-- What the client has written to the socket: the channel, and keys. -/
def output (channel : UInt8) (p : Terminal) : List UInt8 :=
  match p.connection with
  | .connecting => []
  | _ => channel :: p.keys.written

/-- A step of the client.  The process can end at any moment. -/
inductive Step (translate : Bool) : Terminal → Terminal → Prop where
  | connect : ∀ p : Terminal, p.connection = .connecting →
      Step translate p { p with connection := .copying }
  | key : ∀ (p : Terminal) round k, p.connection = .copying → p.keys.ended = .reading →
      round.bytes.length ≤ 256 →
      Step translate p { p with typed := p.typed ++ round.bytes, keys := keysRound round k p.keys }
  | display : ∀ (p : Terminal) n accepted k, p.connection = .copying → p.screen.ended = .reading →
      n ≤ 1024 → p.seen + n ≤ p.sent.length →
      Step translate p { p with
        seen   := p.seen + n
        screen := screenRound translate ⟨(p.sent.drop p.seen).take n, accepted⟩ k p.screen }
  | leave : ∀ p : Terminal, p.connection = .copying →
      Step translate p { p with connection := .left }

/-- The socket, from the server's side.  Its operations can fail. -/
def serves (channel : UInt8) : (i : Io) → Terminal → Poll i.Res → Terminal → Prop
  | .readExact n, p, r, p' =>
    (r = .pending ∧ p' = p) ∨
    (∃ h : n ≤ ((p.output channel).drop p.taken).length,
      r = .ready (.ok (takeVector n ((p.output channel).drop p.taken) h)) ∧
        p' = { p with taken := p.taken + n }) ∨
    ∃ x k, k < n ∧ p.taken + k ≤ (p.output channel).length ∧ r = .ready (.error x) ∧
      p' = { p with taken := p.taken + k }
  | .read n, p, r, p' =>
    (r = .pending ∧ p' = p) ∨
    (∃ k, k ≤ n ∧ p.taken + k ≤ (p.output channel).length ∧
      (k = 0 → p.connection = .left ∧ p.taken = (p.output channel).length) ∧
      r = .ready (.ok (((p.output channel).drop p.taken).take k)) ∧
        p' = { p with taken := p.taken + k }) ∨
    ∃ x, r = .ready (.error x) ∧ p' = p
  | .writeAll bs, p, r, p' =>
    (r = .pending ∧ p' = p) ∨
    (r = .ready (.ok ()) ∧ p' = { p with sent := p.sent ++ bs }) ∨
    ∃ x k, r = .ready (.error x) ∧ p' = { p with sent := p.sent ++ bs.take k }
  | _, p, r, p' => r = .pending ∧ p' = p

end Terminal

/-! ## Section 2: What the client has done -/

/-- **Rounds make up the loop** of `stdin_to_sock`. -/
theorem stdinToSock_round (round : Round) (rounds : List Round) (c : Copied) :
    (stdinToSock (round :: rounds) c.flag).after c.written =
      if (keysRound round 0 c).ended = .reading then
        (stdinToSock rounds (keysRound round 0 c).flag).after (keysRound round 0 c).written
      else keysRound round 0 c := by
  rw [stdinToSock, keysRound]
  by_cases hbytes : round.bytes = []
  · rw [if_pos hbytes, if_pos hbytes]
    simp [Copied.after]
  rw [if_neg hbytes, if_neg hbytes]
  dsimp only
  split
  · simp [Copied.after]
  split
  · simp [Copied.after]
  · simp [Copied.after]

/-- The same for `sock_to_stdout`. -/
theorem sockToStdout_round (translate : Bool) (round : Round) (rounds : List Round) (c : Copied) :
    (sockToStdout translate (round :: rounds) c.flag).after c.written =
      if (screenRound translate round 0 c).ended = .reading then
        (sockToStdout translate rounds (screenRound translate round 0 c).flag).after
          (screenRound translate round 0 c).written
      else screenRound translate round 0 c := by
  rw [sockToStdout, screenRound]
  by_cases hbytes : round.bytes = []
  · rw [if_pos hbytes, if_pos hbytes]
    simp [Copied.after]
  rw [if_neg hbytes, if_neg hbytes]
  dsimp only
  split
  · simp [Copied.after]
  · simp [Copied.after]

/-- A loop whose rounds are `round` takes one round more at its end. -/
theorem loop_snoc {loop : List Round → Bool → Copied} {round : Round → Copied → Copied}
    (hnil : ∀ flag, loop [] flag = ⟨[], flag, .reading⟩)
    (hcons : ∀ r rounds (c : Copied), (loop (r :: rounds) c.flag).after c.written =
      if (round r c).ended = .reading then
        (loop rounds (round r c).flag).after (round r c).written
      else round r c)
    (rounds : List Round) (r : Round) (c : Copied) (hc : c.ended = .reading) :
    (loop (rounds ++ [r]) c.flag).after c.written =
      if ((loop rounds c.flag).after c.written).ended = .reading then
        round r ((loop rounds c.flag).after c.written)
      else (loop rounds c.flag).after c.written := by
  have hidle : ∀ c : Copied, c.ended = .reading → (loop [] c.flag).after c.written = c := by
    rintro ⟨written, flag, ended⟩ rfl
    rw [hnil]
    simp [Copied.after]
  -- induction on the rounds before it; a loop that has ended stays as it is
  induction rounds generalizing c with
  | nil =>
    rw [List.nil_append, hcons, hidle c hc, if_pos hc]
    split
    · rename_i hreading
      exact hidle _ hreading
    · rfl
  | cons r' rounds ih =>
    rw [List.cons_append, hcons, hcons r' rounds]
    by_cases hreading : (round r' c).ended = .reading
    · rw [if_pos hreading, if_pos hreading]
      exact ih _ hreading
    · rw [if_neg hreading, if_neg hreading, if_neg hreading]

/-- `c` is what the loop has done that ends in `copied`, where a write that
    was refused may have sent a part of its bytes. -/
structure Copies (copied c : Copied) : Prop where
  ended   : copied.ended = c.ended
  flag    : copied.flag = c.flag
  written : copied.written <+: c.written
  whole   : c.ended ≠ .refused → copied.written = c.written

theorem Copies.eq {copied c : Copied} (h : Copies copied c) (hc : c.ended = .reading) :
    copied = c := by
  obtain ⟨written, flag, ended⟩ := copied
  obtain ⟨hended, hflag, -, hwhole⟩ := h
  have hwritten := hwhole (by rw [hc]; decide)
  simp only at hended hflag hwritten
  rw [hended, hflag, hwritten]

theorem keysRound_copies (round : Round) (k : Nat) (c : Copied) :
    Copies (keysRound round 0 c) (keysRound round k c) := by
  rw [keysRound, keysRound]
  split
  · exact ⟨rfl, rfl, List.prefix_rfl, fun _ => rfl⟩
  dsimp only
  split
  · exact ⟨rfl, rfl, by simp, fun h => absurd rfl h⟩
  split
  · exact ⟨rfl, rfl, List.prefix_rfl, fun _ => rfl⟩
  · exact ⟨rfl, rfl, List.prefix_rfl, fun _ => rfl⟩

theorem screenRound_copies (translate : Bool) (round : Round) (k : Nat) (c : Copied) :
    Copies (screenRound translate round 0 c) (screenRound translate round k c) := by
  rw [screenRound, screenRound]
  split
  · exact ⟨rfl, rfl, List.prefix_rfl, fun _ => rfl⟩
  dsimp only
  split
  · exact ⟨rfl, rfl, by simp, fun h => absurd rfl h⟩
  · exact ⟨rfl, rfl, List.prefix_rfl, fun _ => rfl⟩

/-- `c` is what `loop` has done after reads that returned `bs`. -/
def Loops (loop : List Round → Bool → Copied) (bs : List UInt8) (c : Copied) : Prop :=
  ∃ rounds : List Round, rounds.flatMap Round.bytes = bs ∧ Copies (loop rounds false) c

theorem Loops.snoc {loop : List Round → Bool → Copied} {round : Round → Copied → Copied}
    (hnil : ∀ flag, loop [] flag = ⟨[], flag, .reading⟩)
    (hcons : ∀ r rounds (c : Copied), (loop (r :: rounds) c.flag).after c.written =
      if (round r c).ended = .reading then
        (loop rounds (round r c).flag).after (round r c).written
      else round r c)
    {bs : List UInt8} {c c' : Copied} (h : Loops loop bs c) (hreading : c.ended = .reading)
    (r : Round) (hc' : Copies (round r c) c') : Loops loop (bs ++ r.bytes) c' := by
  obtain ⟨rounds, rfl, hcopies⟩ := h
  refine ⟨rounds ++ [r], by simp, ?_⟩
  have hsnoc := loop_snoc hnil hcons rounds r ⟨[], false, .reading⟩ rfl
  have hafter : ∀ c : Copied, c.after [] = c := fun _ => rfl
  rw [hafter, hafter, hcopies.eq hreading, if_pos hreading] at hsnoc
  rw [hsnoc]
  exact hc'

theorem Loops.keysRound {bs : List UInt8} {c : Copied} (h : Loops stdinToSock bs c)
    (hreading : c.ended = .reading) (round : Round) (k : Nat) :
    Loops stdinToSock (bs ++ round.bytes) (keysRound round k c) :=
  h.snoc (fun _ => rfl) stdinToSock_round hreading round (keysRound_copies round k c)

theorem Loops.screenRound {translate : Bool} {bs : List UInt8} {c : Copied}
    (h : Loops (sockToStdout translate) bs c) (hreading : c.ended = .reading) (round : Round)
    (k : Nat) :
    Loops (sockToStdout translate) (bs ++ round.bytes) (screenRound translate round k c) :=
  h.snoc (fun _ => rfl) (sockToStdout_round translate) hreading round
    (screenRound_copies translate round k c)

/-- What is to be seen on the screen, after the translation or with `--raw`. -/
def display (translate : Bool) (bs : List UInt8) : Fed Bool UInt8 :=
  if translate then normalizer.feed bs false else ⟨false, bs, false⟩

theorem feed_append_output {σ α β : Type} (m : Machine σ α β) (as as' : List α) (s : σ) :
    (m.feed as s).output <+: (m.feed (as ++ as') s).output := by
  rw [m.feed_append]
  cases hstop : (m.feed as s).stopped with
  | true => rw [Fed.andThen_stopped hstop]
  | false =>
    rw [Fed.andThen_running hstop]
    exact List.prefix_append _ _

theorem display_append (translate : Bool) (bs bs' : List UInt8) :
    (display translate bs).output <+: (display translate (bs ++ bs')).output := by
  cases translate with
  | true => exact feed_append_output normalizer bs bs' false
  | false => exact List.prefix_append _ _

/-- What the screen should show, at the end. -/
def shownAs (translate : Bool) (bs : List UInt8) : List UInt8 :=
  if translate then withCrLf bs else bs

/-- A CR is held back until the next byte is known. -/
theorem display_output (translate : Bool) (bs : List UInt8) :
    (display translate bs).output ++ (if (display translate bs).state then [CR, LF] else []) =
      shownAs translate bs := by
  cases translate with
  | true =>
    have hspec := normalizer_computes.feed bs false
    rw [normalizer_runs, if_neg Bool.false_ne_true] at hspec
    exact hspec.symm
  | false => exact List.append_nil _

/-- The output of `stdin_to_sock` for what was typed: all of it, or the first
    bytes if the socket has refused a write. -/
structure KeysSound (typed : List UInt8) (c : Copied) : Prop where
  reading : c.ended = .reading → escaper.feed typed false = ⟨c.flag, c.written, false⟩
  whole   : c.ended ≠ .refused → c.written = forwarded typed
  start   : c.written <+: forwarded typed

theorem KeysSound.round {typed : List UInt8} {c : Copied} (h : KeysSound typed c)
    (hreading : c.ended = .reading) (round : Round) (k : Nat) :
    KeysSound (typed ++ round.bytes) (keysRound round k c) := by
  have hfed := h.reading hreading
  have hmore : escaper.feed (typed ++ round.bytes) false =
      ⟨(escaper.feed round.bytes c.flag).state,
        c.written ++ (escaper.feed round.bytes c.flag).output,
        (escaper.feed round.bytes c.flag).stopped⟩ := by
    rw [escaper.feed_append, hfed]
    exact Fed.andThen_running rfl _
  have hforwarded : c.written ++ (escaper.feed round.bytes c.flag).output =
      forwarded (typed ++ round.bytes) := by
    rw [← escaper_output, hmore]
  have hstart : c.written ++ (escaper.feed round.bytes c.flag).output <+:
      forwarded (typed ++ round.bytes) := ⟨[], by rw [List.append_nil, hforwarded]⟩
  rw [keysRound]
  by_cases hbytes : round.bytes = []
  · rw [if_pos hbytes, hbytes, List.append_nil]
    exact ⟨(by intro heq; cases heq), fun _ => h.whole (by rw [hreading]; decide), h.start⟩
  rw [if_neg hbytes, processBuffer_eq]
  dsimp only
  split
  · -- a part of the round has gone out
    refine ⟨(by intro heq; cases heq), fun hne => absurd rfl hne, ?_⟩
    exact ((List.prefix_append_right_inj _).mpr (List.take_prefix _ _)).trans hstart
  cases hstop : (escaper.feed round.bytes c.flag).stopped with
  | true =>
    rw [if_pos rfl]
    exact ⟨(by intro heq; cases heq), fun _ => hforwarded, hstart⟩
  | false =>
    rw [if_neg (by decide)]
    rw [hstop] at hmore
    exact ⟨fun _ => hmore, fun _ => hforwarded, hstart⟩

/-- The output of `sock_to_stdout` for what it has read. -/
structure ScreenSound (translate : Bool) (bs : List UInt8) (c : Copied) : Prop where
  whole : c.ended ≠ .refused → display translate bs = ⟨c.flag, c.written, false⟩
  start : c.written <+: (display translate bs).output

theorem ScreenSound.round {translate : Bool} {bs : List UInt8} {c : Copied}
    (h : ScreenSound translate bs c) (hreading : c.ended = .reading) (round : Round) (k : Nat) :
    ScreenSound translate (bs ++ round.bytes) (screenRound translate round k c) := by
  have hshown := h.whole (by rw [hreading]; decide)
  rw [screenRound]
  by_cases hbytes : round.bytes = []
  · rw [if_pos hbytes, hbytes, List.append_nil]
    exact ⟨fun _ => hshown, h.start⟩
  rw [if_neg hbytes]
  -- the payload of the round, and the flag after it
  have hmore : ∀ payload hadCr,
      (if translate then normalizeLineEndings round.bytes c.flag else (round.bytes, c.flag)) =
        (payload, hadCr) →
      display translate (bs ++ round.bytes) = ⟨hadCr, c.written ++ payload, false⟩ := by
    intro payload hadCr hround
    cases translate with
    | true =>
      rw [if_pos rfl, normalizeLineEndings_eq] at hround
      cases hround
      show normalizer.feed (bs ++ round.bytes) false = _
      have hfed : normalizer.feed bs false = ⟨c.flag, c.written, false⟩ := hshown
      rw [normalizer.feed_append, hfed, Fed.andThen_running rfl, normalizer_runs]
    | false =>
      rw [if_neg Bool.false_ne_true] at hround
      cases hround
      have hfed : (⟨false, bs, false⟩ : Fed Bool UInt8) = ⟨c.flag, c.written, false⟩ := hshown
      injection hfed with hflag hwritten
      show (⟨false, bs ++ round.bytes, false⟩ : Fed Bool UInt8) = _
      rw [← hflag, hwritten]
  generalize hround : (if translate then normalizeLineEndings round.bytes c.flag
    else (round.bytes, c.flag)) = after
  obtain ⟨payload, hadCr⟩ := after
  have hshown' := hmore payload hadCr hround
  dsimp only
  split
  · refine ⟨fun hne => absurd rfl hne, ?_⟩
    rw [hshown']
    exact (List.prefix_append_right_inj _).mpr (List.take_prefix _ _)
  · exact ⟨fun _ => hshown', hshown' ▸ List.prefix_rfl⟩

namespace Terminal

/-- What every reachable client satisfies. -/
structure Sound (channel : UInt8) (translate : Bool) (p : Terminal) : Prop where
  taken   : p.taken ≤ (p.output channel).length
  seen    : p.seen ≤ p.sent.length
  keys    : KeysSound p.typed p.keys
  screen  : ScreenSound translate (p.sent.take p.seen) p.screen
  copyIn  : Loops stdinToSock p.typed p.keys
  copyOut : Loops (sockToStdout translate) (p.sent.take p.seen) p.screen

theorem sound_new (channel : UInt8) (translate : Bool) : Sound channel translate new where
  taken   := le_rfl
  seen    := le_rfl
  keys    := ⟨fun _ => rfl, fun _ => rfl, List.prefix_rfl⟩
  screen  := by
    refine ⟨fun _ => ?_, List.nil_prefix⟩
    cases translate <;> rfl
  copyIn  := ⟨[], rfl, rfl, rfl, List.prefix_rfl, fun _ => rfl⟩
  copyOut := ⟨[], rfl, rfl, rfl, List.prefix_rfl, fun _ => rfl⟩

variable {channel : UInt8} {translate : Bool} {p p' : Terminal}

/-- The client only appends to what it has written. -/
theorem Step.keys_prefix (h : Step translate p p') : p.keys.written <+: p'.keys.written := by
  cases h with
  | key round k h hreading =>
    rw [keysRound]
    split
    · exact List.prefix_rfl
    · dsimp only
      split
      · exact List.prefix_append _ _
      · split <;> exact List.prefix_append _ _
  | _ => exact List.prefix_rfl

theorem Step.output_prefix (h : Step translate p p') : p.output channel <+: p'.output channel := by
  cases h with
  | connect h =>
    rw [output, h]
    exact List.nil_prefix
  | key round k h hreading hlen =>
    rw [output, output, h]
    have hstep : Step translate p _ := .key p round k h hreading hlen
    exact List.cons_prefix_cons.mpr ⟨rfl, hstep.keys_prefix⟩
  | display n accepted k h =>
    rw [output, output, h]
  | leave h =>
    rw [output, output, h]

theorem Step.kept (h : Step translate p p') : p'.taken = p.taken ∧ p'.sent = p.sent := by
  cases h with
  | _ => exact ⟨rfl, rfl⟩

/-- **Step lemma** for the client. -/
theorem Step.sound (h : Step translate p p') (hp : p.Sound channel translate) :
    p'.Sound channel translate := by
  have htaken : p'.taken ≤ (p'.output channel).length := by
    rw [h.kept.1]
    exact hp.taken.trans h.output_prefix.length_le
  cases h with
  | connect h => exact ⟨htaken, hp.seen, hp.keys, hp.screen, hp.copyIn, hp.copyOut⟩
  | key round k h hreading =>
    exact ⟨htaken, hp.seen, hp.keys.round hreading round k, hp.screen,
      hp.copyIn.keysRound hreading round k, hp.copyOut⟩
  | display n accepted k h hreading hn hle =>
    have hbytes : p.sent.take (p.seen + n) = p.sent.take p.seen ++ (p.sent.drop p.seen).take n :=
      List.take_add
    refine ⟨htaken, hle, hp.keys, ?_, hp.copyIn, ?_⟩
    · show ScreenSound translate (p.sent.take (p.seen + n)) _
      rw [hbytes]
      exact hp.screen.round hreading ⟨_, accepted⟩ k
    · show Loops (sockToStdout translate) (p.sent.take (p.seen + n)) _
      rw [hbytes]
      exact hp.copyOut.screenRound hreading ⟨_, accepted⟩ k
  | leave h => exact ⟨htaken, hp.seen, hp.keys, hp.screen, hp.copyIn, hp.copyOut⟩

/-- The server reads on, and writes more. -/
theorem Sound.serves (hp : p.Sound channel translate) {i : Io} {r : Poll i.Res}
    (h : p.serves channel i r p') : p'.Sound channel translate := by
  have hread : ∀ k, p.taken + k ≤ (p.output channel).length →
      Sound channel translate { p with taken := p.taken + k } := fun k hk =>
    ⟨hk, hp.seen, hp.keys, hp.screen, hp.copyIn, hp.copyOut⟩
  -- the screen depends only on what the client has read so far
  have hwrite : ∀ bs, Sound channel translate { p with sent := p.sent ++ bs } := by
    intro bs
    refine ⟨hp.taken, hp.seen.trans ?_, hp.keys, ?_, hp.copyIn, ?_⟩
    · simp
    · show ScreenSound translate ((p.sent ++ bs).take p.seen) p.screen
      rw [List.take_append_of_le_length hp.seen]
      exact hp.screen
    · show Loops (sockToStdout translate) ((p.sent ++ bs).take p.seen) p.screen
      rw [List.take_append_of_le_length hp.seen]
      exact hp.copyOut
  cases i with
  | readExact n =>
    rcases h with ⟨-, rfl⟩ | ⟨hn, -, rfl⟩ | ⟨x, k, -, hk, -, rfl⟩
    · exact hp
    · rw [List.length_drop] at hn
      have htaken := hp.taken
      exact hread n (by omega)
    · exact hread k hk
  | read n =>
    rcases h with ⟨-, rfl⟩ | ⟨k, -, hk, -, -, rfl⟩ | ⟨x, -, rfl⟩
    · exact hp
    · exact hread k hk
    · exact hp
  | writeAll bs =>
    rcases h with ⟨-, rfl⟩ | ⟨-, rfl⟩ | ⟨x, k, -, rfl⟩
    · exact hp
    · exact hwrite bs
    · exact hwrite _
  | nextLine =>
    obtain ⟨-, rfl⟩ := h
    exact hp
  | nextCall =>
    obtain ⟨-, rfl⟩ := h
    exact hp

end Terminal

/-! ## Section 3: The client among the peers -/

/-- The attach connection that a task works for. -/
def connectionOf : Tid → Option Nat
  | .attach n | .attachIn n _ | .attachOut n _ => some n
  | _ => none

variable {D F N : Type}

/-- The client is the peer of attach session `n`.  All other peers are as in
    `rest`. -/
def withTerminal (channel : UInt8) (translate : Bool) (n : Nat) (rest : Env D F N) :
    Env D F (Terminal × N) where
  net := fun t i x r x' =>
    (connectionOf t = some n ∧ x.1.serves channel i r x'.1 ∧ x'.2 = x.2) ∨
      (connectionOf t ≠ some n ∧ x'.1 = x.1 ∧ rest.net t i x.2 r x'.2)
  sys := rest.sys
  connect := fun t x => t = .attach n ∨ rest.connect t x.2
  netStep := fun x x' =>
    (Terminal.Step translate x.1 x'.1 ∧ x'.2 = x.2) ∨ (x'.1 = x.1 ∧ rest.netStep x.2 x'.2)

/-- An environment in which `term` is such a client, whatever else is in it. -/
structure Attached (env : Env D F N) (term : N → Terminal) (channel : UInt8) (translate : Bool)
    (n : Nat) : Prop where
  own    : ∀ {t i x r x'}, connectionOf t = some n → env.net t i x r x' →
    (term x).serves channel i r (term x')
  others : ∀ {t i x r x'}, connectionOf t ≠ some n → env.net t i x r x' → term x' = term x
  alone  : ∀ {x x'}, env.netStep x x' →
    Terminal.Step translate (term x) (term x') ∨ term x' = term x

theorem attached_terminal (channel : UInt8) (translate : Bool) (n : Nat) (rest : Env D F N) :
    Attached (withTerminal channel translate n rest) Prod.fst channel translate n where
  own := by
    rintro t i x r x' ht (⟨-, hserves, -⟩ | ⟨hne, -, -⟩)
    · exact hserves
    · exact absurd ht hne
  others := by
    rintro t i x r x' ht (⟨heq, -, -⟩ | ⟨-, hsame, -⟩)
    · exact absurd heq ht
    · exact hsame
  alone := by
    rintro x x' (⟨hstep, -⟩ | ⟨hsame, -⟩)
    · exact .inl hstep
    · exact .inr hsame

/-- A guest that polls next to it does not disturb it. -/
theorem Attached.withPoller {env : Env D F N} {term : N → Terminal} {channel : UInt8}
    {translate : Bool} {n : Nat} (h : Attached env term channel translate n) (g : Nat) :
    Attached (withPoller env g) (fun x => term x.2) channel translate n where
  own := by
    rintro t i x r x' ht (⟨rfl, -, -⟩ | ⟨-, -, hnet⟩)
    · cases ht
    · exact h.own ht hnet
  others := by
    rintro t i x r x' ht (⟨-, -, rfl⟩ | ⟨-, -, hnet⟩)
    · rfl
    · exact h.others ht hnet
  alone := by
    rintro x x' (⟨-, hsame⟩ | ⟨-, hstep⟩)
    · exact .inr (congrArg term hsame)
    · exact h.alone hstep

/-! ## Section 4: The tasks of the connection -/

/-- What a task does for the connection, with the bytes that it has in hand. -/
inductive Role where
  | off     : Role
  | gone    : Role
  /-- No task of the connection. -/
  | other   : Role
  /-- The session before its channel byte. -/
  | calling : Role
  | called  : UInt8 → Role
  | typing  : UInt8 → List UInt8 → Role
  | showing : UInt8 → List UInt8 → Role
  /-- The outbound task after a write that failed. -/
  | broken  : UInt8 → Role

namespace Role

def enter (n : Nat) : Tid → Role
  | .attach m => if m = n then .calling else .other
  | .attachIn m channel => if m = n then .typing channel [] else .other
  | .attachOut m channel => if m = n then .showing channel [] else .other
  | _ => .other

def Suits (n : Nat) (t : Tid) : Role → Prop
  | .off | .gone => True
  | .other => connectionOf t ≠ some n
  | .calling | .called _ => t = .attach n
  | .typing channel _ => t = .attachIn n channel
  | .showing channel _ | .broken channel => t = .attachOut n channel

/-- How an iteration ends. -/
def Leaves (n : Nat) (t : Tid) : Flow Exit → Role → Prop
  | _, .other => connectionOf t ≠ some n
  | .done _, .calling | .done _, .called _ | .done _, .broken _ => True
  | _, .typing channel bytes => channel.toNat < vserialChannels → bytes = []
  | .again, .showing _ bytes => bytes = []
  | _, _ => False

def hand : Role → List UInt8
  | .typing _ bytes | .showing _ bytes => bytes
  | _ => []

end Role

/-- How the effects of the tasks move their bytes. -/
def wiring (n : Nat) : Protocol (Eff D) Eff.Res Role where
  allows := fun s e =>
    match s, e with
    | .other, .spawn u => connectionOf u ≠ some n
    | .other, _ => True
    | .calling, .io (.readExact k) => k = 1
    | .called channel, .spawn u => u.child = some (n, channel)
    | .called _, .select _ _ => True
    | .typing _ bytes, .io (.read _) => bytes = []
    | .typing channel bytes, .op (.outboxExtend c bs) => c.val = channel.toNat ∧ bs = bytes
    | .typing _ _, .lock _ _ | .typing _ _, .unlock _ => True
    | .showing channel bytes, .op (.inboxDrain c) => c.val = channel.toNat ∧ bytes = []
    | .showing _ bytes, .io (.writeAll bs) => bs = bytes
    | .showing _ _, .lock _ _ | .showing _ _, .unlock _ => True
    | .showing _ bytes, .notified _ | .showing _ bytes, .never => bytes = []
    | _, _ => False
  admits := fun _ _ _ => True
  next := fun s e =>
    match s, e with
    | .calling, .io (.readExact _) => fun r =>
      match r with
      | .ok chByte => .called (chByte.toList.headD 0)
      | .error _ => .calling
    | .typing channel _, .io (.read _) => fun r =>
      match r with
      | .ok bytes => .typing channel bytes
      | .error _ => .typing channel []
    | .typing channel _, .op (.outboxExtend _ _) => fun _ => .typing channel []
    | .showing channel _, .op (.inboxDrain _) => fun bytes => .showing channel bytes
    | .showing channel _, .io (.writeAll _) => fun r =>
      match r with
      | .ok () => .showing channel []
      | .error _ => .broken channel
    | s, _ => fun _ => s

theorem other_wiring {n : Nat} {t : Tid} (ht : connectionOf t ≠ some n) {A : Eff D → Prop}
    (hA : ∀ e, A e → ∀ u, e = .spawn u → connectionOf u ≠ some n) {c : Code D (Flow Exit)}
    (hc : c.Only A) : c.Obeys (wiring n) .other (Role.Leaves n t) := by
  refine (hc.obeys (s := Role.other) fun e he => ?_).mono fun flow s hs => ?_
  · cases e with
    | spawn u => exact ⟨hA _ he u rfl, fun _ _ => rfl⟩
    | _ => exact ⟨trivial, fun _ _ => rfl⟩
  · subst hs
    cases flow <;> exact ht

theorem attachSession_wiring (n : Nat) :
    (attachSession (D := D) n).Obeys (wiring n) .calling (Role.Leaves n (.attach n)) := by
  refine ⟨rfl, fun r _ => ?_⟩
  cases r with
  | error e => trivial
  | ok chByte =>
    have hbyte : chByte.toList.headD 0 = byte0 chByte := by
      rw [toList_one]
      rfl
    refine ⟨?_, fun _ _ => ⟨?_, fun _ _ => ⟨trivial, fun _ _ => trivial⟩⟩⟩
    · show (Tid.attachIn n (byte0 chByte)).child = some (n, chByte.toList.headD 0)
      rw [hbyte]
      rfl
    · show (Tid.attachOut n (byte0 chByte)).child = some (n, chByte.toList.headD 0)
      rw [hbyte]
      rfl

theorem inboundOnce_wiring (n : Nat) (channel : UInt8) :
    (inboundOnce channel : Code D _).Obeys (wiring n) (.typing channel [])
      (Role.Leaves n (.attachIn n channel)) := by
  refine ⟨rfl, fun r _ => ?_⟩
  cases r with
  | error e => exact fun _ => rfl
  | ok buf =>
    cases buf with
    | nil => exact fun _ => rfl
    | cons x buf =>
      show Prog.Obeys (wiring n) _ (.typing channel (x :: buf)) _
      by_cases h : channel.toNat < vserialChannels
      · simp only [sendToVserial, dif_pos h]
        exact ⟨trivial, fun _ _ => ⟨⟨rfl, rfl⟩, fun _ _ => ⟨trivial, fun _ _ _ => rfl⟩⟩⟩
      · simp only [sendToVserial, dif_neg h]
        exact fun hlt => absurd hlt h

theorem outboundOnce_wiring (n : Nat) (channel : UInt8) :
    (outboundOnce channel : Code D _).Obeys (wiring n) (.showing channel [])
      (Role.Leaves n (.attachOut n channel)) := by
  have hdrain : (drainVserial channel : Code D _).Obeys (wiring n) (.showing channel [])
      (fun bytes s => s = .showing channel bytes) := by
    unfold drainVserial
    split
    · exact ⟨trivial, fun _ _ => ⟨⟨rfl, rfl⟩, fun _ _ => ⟨trivial, fun _ _ => rfl⟩⟩⟩
    · rfl
  refine hdrain.bind fun bytes s hs => ?_
  subst hs
  cases bytes with
  | nil =>
    refine Prog.Obeys.bind (M := fun _ s => s = .showing channel []) ?_ fun _ s hs => ?_
    · unfold waitVserialInbox
      split
      · exact ⟨rfl, fun _ _ => rfl⟩
      · exact ⟨rfl, fun _ _ => rfl⟩
    · subst hs
      exact rfl
  | cons x bytes =>
    refine ⟨rfl, fun r _ => ?_⟩
    cases r with
    | ok u => exact rfl
    | error e => trivial

theorem body_wiring [VDisk D] [UnicodeTables] (n : Nat) (t : Tid) :
    (body (D := D) t).Obeys (wiring n) (Role.enter n t) (Role.Leaves n t) := by
  -- the three tasks of connection `n` have roles of their own; all others are `.other`
  cases t with
  | guest m =>
    have hown : connectionOf (.guest m) ≠ some n := fun h => by cases h
    exact other_wiring hown (fun e he u heq => absurd heq (he.stays.1 u)) guestOnce_only
  | attach m =>
    rw [Role.enter]
    split
    · subst_vars
      exact attachSession_wiring _
    · rename_i hne
      have hown : connectionOf (.attach m) ≠ some n := fun h => hne (Option.some_inj.mp h)
      refine other_wiring hown (A := fun e => ∀ u, e = .spawn u → connectionOf u = some m)
        (fun e he u heq hu => hne (Option.some_inj.mp ((he u heq).symm.trans hu))) ?_
      refine ⟨(fun u heq => by cases heq), fun r _ => ?_⟩
      cases r with
      | error e => trivial
      | ok chByte =>
        refine ⟨fun u heq => ?_, fun _ _ => ⟨fun u heq => ?_, fun _ _ =>
          ⟨(fun u heq => by cases heq), fun _ _ => trivial⟩⟩⟩
        · cases heq
          rfl
        · cases heq
          rfl
  | attachIn m channel =>
    rw [Role.enter]
    split
    · subst_vars
      exact inboundOnce_wiring _ channel
    · rename_i hne
      have hown : connectionOf (.attachIn m channel) ≠ some n := fun h =>
        hne (Option.some_inj.mp h)
      exact other_wiring hown (fun e he u heq => absurd heq (he.stays.1 u))
        (inboundOnce_host channel)
  | attachOut m channel =>
    rw [Role.enter]
    split
    · subst_vars
      exact outboundOnce_wiring _ channel
    · rename_i hne
      have hown : connectionOf (.attachOut m channel) ≠ some n := fun h =>
        hne (Option.some_inj.mp h)
      refine other_wiring hown ?_ (outboundOnce_only channel)
      rintro e he u rfl
      cases he
  | control m =>
    have hown : connectionOf (.control m) ≠ some n := fun h => by cases h
    exact other_wiring hown (fun e he u heq => absurd heq (he.stays.1 u)) controlOnce_host
  | api m =>
    have hown : connectionOf (.api m) ≠ some n := fun h => by cases h
    exact other_wiring hown (fun e he u heq => absurd heq (he.stays.1 u)) apiCall_host

/-! ## Section 5: The invariant -/

/-- The bytes that task `t` moves in a trace, according to `f`. -/
def through (t : Tid) (f : (o : Op D) → o.Res → List UInt8) (tr : List (SysLabel D)) :
    List UInt8 :=
  traffic f (tr.filter fun l => l.1 = t)

theorem through_self (t : Tid) (f : (o : Op D) → o.Res → List UInt8) (tr : List (SysLabel D))
    (x : Event (E := Eff D) Eff.Res) :
    through t f (tr ++ [(t, x)]) = through t f tr ++ traffic f [(t, x)] := by
  simp [through, traffic]

theorem through_ne {t u : Tid} (h : t ≠ u) (f : (o : Op D) → o.Res → List UInt8)
    (tr : List (SysLabel D)) (x : Event (E := Eff D) Eff.Res) :
    through u f (tr ++ [(t, x)]) = through u f tr := by
  simp [through, h]

/-- Where the bytes are that pass through connection `n`, which is for channel
    `c`. -/
structure Wired (term : N → Terminal) (n : Nat) (c : Channel) (translate : Bool) (F : Type)
    (tr : List (SysLabel D)) (g : Tid → Role) (w : World D F N) : Prop where
  suits   : ∀ t, (g t).Suits n t
  sound   : (term w.net).Sound (idOf c) translate
  fresh   : g (.attach n) = .off ∨ g (.attach n) = .calling → (term w.net).taken = 0
  called  : ∀ channel, g (.attach n) = .called channel →
    channel = idOf c ∧ 0 < (term w.net).taken
  spawned : ∀ u channel, u.child = some (n, channel) → u ∈ w.spawned →
    channel = idOf c ∧ 0 < (term w.net).taken
  started : ∀ u x, u.child = some x → g u ≠ .off → u ∈ w.spawned
  /-- What the server has read has gone into the outbox, or is in hand. -/
  input   : (term w.net).keys.written.take ((term w.net).taken - 1) =
    through (.attachIn n (idOf c)) (fun o _ => outboxIn c o) tr ++
      (g (.attachIn n (idOf c))).hand
  /-- What has been drained has gone to the client, or is in hand. -/
  output  : (term w.net).sent ++ (g (.attachOut n (idOf c))).hand <+:
    through (.attachOut n (idOf c)) (inboxOut c) tr
  whole   : g (.attachOut n (idOf c)) ≠ .gone →
    (∀ channel, g (.attachOut n (idOf c)) ≠ .broken channel) →
    (term w.net).sent ++ (g (.attachOut n (idOf c))).hand =
      through (.attachOut n (idOf c)) (inboxOut c) tr

variable {term : N → Terminal} {n : Nat} {c : Channel} {translate : Bool}
  {tr : List (SysLabel D)} {g : Tid → Role} {w w' : World D F N}

/-- The two bounds of what the server has read. -/
theorem Wired.take_written (h : Wired term n c translate F tr g w) {p : Terminal}
    (hkeys : (term w.net).keys.written <+: p.keys.written) :
    p.keys.written.take ((term w.net).taken - 1) =
      (term w.net).keys.written.take ((term w.net).taken - 1) := by
  obtain ⟨rest, hrest⟩ := hkeys
  have hlen : (term w.net).taken - 1 ≤ (term w.net).keys.written.length := by
    have htaken := h.sound.taken
    rw [Terminal.output] at htaken
    split at htaken
    · rw [List.length_nil] at htaken
      omega
    · rw [List.length_cons] at htaken
      omega
  rw [← hrest, List.take_append_of_le_length hlen]

theorem connectionOf_child {u : Tid} {channel : UInt8} (h : u.child = some (n, channel)) :
    connectionOf u = some n := by
  cases u with
  | attachIn m ch => exact congrArg (Option.map Prod.fst) h
  | attachOut m ch => exact congrArg (Option.map Prod.fst) h
  | _ => cases h

/-- A step that has nothing to do with the connection. -/
theorem Wired.frame (h : Wired term n c translate F tr g w) (hmore : w.spawned ⊆ w'.spawned)
    (hspawned : ∀ u, u ∈ w'.spawned → u ∈ w.spawned ∨ connectionOf u ≠ some n)
    (hterm : term w'.net = term w.net) : Wired term n c translate F tr g w' where
  suits   := h.suits
  sound   := by rw [hterm]; exact h.sound
  fresh   := by rw [hterm]; exact h.fresh
  called  := by rw [hterm]; exact h.called
  spawned := by
    intro u channel hu hmem
    rw [hterm]
    rcases hspawned u hmem with hold | hother
    · exact h.spawned u channel hu hold
    · exact absurd (connectionOf_child hu) hother
  started := fun u x hu hon => hmore (h.started u x hu hon)
  input   := by rw [hterm]; exact h.input
  output  := by rw [hterm]; exact h.output
  whole   := by rw [hterm]; exact h.whole

/-- The client moves alone. -/
theorem Wired.alone (h : Wired term n c translate F tr g w) {x : N}
    (hstep : Terminal.Step translate (term w.net) (term x)) :
    Wired term n c translate F tr g { w with net := x } := by
  obtain ⟨htaken, hsent⟩ := hstep.kept
  refine ⟨h.suits, hstep.sound h.sound, ?_, ?_, ?_, h.started, ?_, ?_, ?_⟩
  · rw [htaken]
    exact h.fresh
  · rw [htaken]
    exact h.called
  · rw [htaken]
    exact h.spawned
  · rw [htaken, h.take_written hstep.keys_prefix]
    exact h.input
  · rw [hsent]
    exact h.output
  · rw [hsent]
    exact h.whole

/-- Another task starts, goes on or ends. -/
theorem Wired.others (h : Wired term n c translate F tr g w) {t : Tid}
    (ht : connectionOf t ≠ some n) {s : Role} (hs : s.Suits n t)
    (hchild : ∀ x, t.child = some x → s ≠ .off → t ∈ w.spawned)
    {tr' : List (SysLabel D)} (htr : tr' = tr ∨ ∃ x, tr' = tr ++ [(t, x)]) :
    Wired term n c translate F tr' (Function.update g t s) w := by
  have hne : ∀ u, connectionOf u = some n → u ≠ t := by
    rintro u hu rfl
    exact ht hu
  have hgone : ∀ u, connectionOf u = some n → Function.update g t s u = g u := fun u hu =>
    Function.update_of_ne (hne u hu) _ _
  -- what passes through the connection's tasks is not affected
  have hthrough : ∀ u f, connectionOf u = some n → through u f tr' = through u f tr := by
    intro u f hu
    rcases htr with rfl | ⟨x, rfl⟩
    · rfl
    · exact through_ne (hne u hu).symm f tr x
  have hsession := hgone (.attach n) rfl
  have hin := hgone (.attachIn n (idOf c)) rfl
  have hout := hgone (.attachOut n (idOf c)) rfl
  refine ⟨fun u => ?_, h.sound, ?_, ?_, h.spawned, fun u x hu hstarted => ?_, ?_, ?_, ?_⟩
  · by_cases hu : u = t
    · subst hu
      rw [Function.update_self]
      exact hs
    · rw [Function.update_of_ne hu]
      exact h.suits u
  · rw [hsession]
    exact h.fresh
  · rw [hsession]
    exact h.called
  · by_cases hut : u = t
    · subst hut
      rw [Function.update_self] at hstarted
      exact hchild x hu hstarted
    · rw [Function.update_of_ne hut] at hstarted
      exact h.started u x hu hstarted
  · rw [hin, hthrough _ _ rfl]
    exact h.input
  · rw [hout, hthrough _ _ rfl]
    exact h.output
  · rw [hout, hthrough _ _ rfl]
    exact h.whole

/-- The session reads the channel, or spawns its tasks. -/
theorem Wired.session (h : Wired term n c translate F tr g w) (w' : World D F N) (s : Role)
    (hs : s.Suits n (.attach n)) (hkeys : (term w'.net).keys = (term w.net).keys)
    (hsent : (term w'.net).sent = (term w.net).sent)
    (hsound : (term w'.net).Sound (idOf c) translate)
    (htaken : (term w'.net).taken - 1 = (term w.net).taken - 1)
    (hfresh : s = .off ∨ s = .calling → (term w'.net).taken = 0)
    (hcalled : ∀ channel, s = .called channel → channel = idOf c ∧ 0 < (term w'.net).taken)
    (hmore : w.spawned ⊆ w'.spawned)
    (hspawned : ∀ u channel, u.child = some (n, channel) → u ∈ w'.spawned →
      channel = idOf c ∧ 0 < (term w'.net).taken)
    {tr' : List (SysLabel D)} (htr : tr' = tr ∨ ∃ x, tr' = tr ++ [(.attach n, x)]) :
    Wired term n c translate F tr' (Function.update g (.attach n) s) w' := by
  have hthrough : ∀ u f, u ≠ .attach n → through u f tr' = through u f tr := by
    intro u f hu
    rcases htr with rfl | ⟨x, rfl⟩
    · rfl
    · exact through_ne (Ne.symm hu) f tr x
  have hin : Tid.attachIn n (idOf c) ≠ .attach n := fun h => by cases h
  have hout : Tid.attachOut n (idOf c) ≠ .attach n := fun h => by cases h
  -- the session reads one byte and moves none, so both streams stay as they are
  refine ⟨fun u => ?_, hsound, ?_, ?_, hspawned, fun u x hu hstarted => ?_, ?_, ?_, ?_⟩
  · by_cases hu : u = .attach n
    · subst hu
      rw [Function.update_self]
      exact hs
    · rw [Function.update_of_ne hu]
      exact h.suits u
  · rw [Function.update_self]
    exact hfresh
  · rw [Function.update_self]
    exact hcalled
  · have hut : u ≠ .attach n := by
      rintro rfl
      cases hu
    rw [Function.update_of_ne hut] at hstarted
    exact hmore (h.started u x hu hstarted)
  · rw [Function.update_of_ne hin, hthrough _ _ hin, hkeys, htaken]
    exact h.input
  · rw [Function.update_of_ne hout, hthrough _ _ hout, hsent]
    exact h.output
  · rw [Function.update_of_ne hout, hthrough _ _ hout, hsent]
    exact h.whole

/-- A step of the inbound task. -/
theorem Wired.inbound (h : Wired term n c translate F tr g w) (w' : World D F N) (s : Role)
    (hs : s.Suits n (.attachIn n (idOf c))) (hmem : .attachIn n (idOf c) ∈ w.spawned)
    (hspawned : w'.spawned = w.spawned) (hsent : (term w'.net).sent = (term w.net).sent)
    (hsound : (term w'.net).Sound (idOf c) translate)
    (htaken : (term w.net).taken ≤ (term w'.net).taken)
    {tr' : List (SysLabel D)} (htr : tr' = tr ∨ ∃ x, tr' = tr ++ [(.attachIn n (idOf c), x)])
    (hinput : (term w'.net).keys.written.take ((term w'.net).taken - 1) =
      through (.attachIn n (idOf c)) (fun o _ => outboxIn c o) tr' ++ s.hand) :
    Wired term n c translate F tr' (Function.update g (.attachIn n (idOf c)) s) w' := by
  -- the byte that names the channel is read before the task is spawned
  obtain ⟨-, hpos⟩ := h.spawned _ (idOf c) rfl hmem
  have hsession : Tid.attach n ≠ .attachIn n (idOf c) := fun h => by cases h
  have hout : Tid.attachOut n (idOf c) ≠ .attachIn n (idOf c) := fun h => by cases h
  have hthrough : through (.attachOut n (idOf c)) (inboxOut c) tr' =
      through (.attachOut n (idOf c)) (inboxOut c) tr := by
    rcases htr with rfl | ⟨x, rfl⟩
    · rfl
    · exact through_ne hout.symm _ tr x
  refine ⟨fun u => ?_, hsound, ?_, ?_, ?_, fun u x hu hstarted => ?_, ?_, ?_, ?_⟩
  · by_cases hu : u = .attachIn n (idOf c)
    · subst hu
      rw [Function.update_self]
      exact hs
    · rw [Function.update_of_ne hu]
      exact h.suits u
  · rw [Function.update_of_ne hsession]
    intro hfresh
    have hzero := h.fresh hfresh
    omega
  · rw [Function.update_of_ne hsession]
    intro channel hcalled
    exact ⟨(h.called channel hcalled).1, by omega⟩
  · rw [hspawned]
    intro u channel hu hu'
    exact ⟨(h.spawned u channel hu hu').1, by omega⟩
  · rw [hspawned]
    by_cases hut : u = .attachIn n (idOf c)
    · exact hut ▸ hmem
    · rw [Function.update_of_ne hut] at hstarted
      exact h.started u x hu hstarted
  · rw [Function.update_self]
    exact hinput
  · rw [Function.update_of_ne hout, hthrough, hsent]
    exact h.output
  · rw [Function.update_of_ne hout, hthrough, hsent]
    exact h.whole

/-- A step of the outbound task. -/
theorem Wired.outbound (h : Wired term n c translate F tr g w) (w' : World D F N) (s : Role)
    (hs : s.Suits n (.attachOut n (idOf c))) (hmem : .attachOut n (idOf c) ∈ w.spawned)
    (hspawned : w'.spawned = w.spawned) (hkeys : (term w'.net).keys = (term w.net).keys)
    (htaken : (term w'.net).taken = (term w.net).taken)
    (hsound : (term w'.net).Sound (idOf c) translate)
    {tr' : List (SysLabel D)} (htr : tr' = tr ∨ ∃ x, tr' = tr ++ [(.attachOut n (idOf c), x)])
    (houtput : (term w'.net).sent ++ s.hand <+:
      through (.attachOut n (idOf c)) (inboxOut c) tr')
    (hwhole : s ≠ .gone → (∀ channel, s ≠ .broken channel) →
      (term w'.net).sent ++ s.hand = through (.attachOut n (idOf c)) (inboxOut c) tr') :
    Wired term n c translate F tr' (Function.update g (.attachOut n (idOf c)) s) w' := by
  have hsession : Tid.attach n ≠ .attachOut n (idOf c) := fun h => by cases h
  have hin : Tid.attachIn n (idOf c) ≠ .attachOut n (idOf c) := fun h => by cases h
  have hthrough : through (.attachIn n (idOf c)) (fun o _ => outboxIn c o) tr' =
      through (.attachIn n (idOf c)) (fun o _ => outboxIn c o) tr := by
    rcases htr with rfl | ⟨x, rfl⟩
    · rfl
    · exact through_ne hin.symm _ tr x
  -- only the stream towards the client changes
  refine ⟨fun u => ?_, hsound, ?_, ?_, ?_, fun u x hu hstarted => ?_, ?_, ?_, ?_⟩
  · by_cases hu : u = .attachOut n (idOf c)
    · subst hu
      rw [Function.update_self]
      exact hs
    · rw [Function.update_of_ne hu]
      exact h.suits u
  · rw [Function.update_of_ne hsession, htaken]
    exact h.fresh
  · rw [Function.update_of_ne hsession, htaken]
    exact h.called
  · rw [hspawned, htaken]
    exact h.spawned
  · rw [hspawned]
    by_cases hut : u = .attachOut n (idOf c)
    · exact hut ▸ hmem
    · rw [Function.update_of_ne hut] at hstarted
      exact h.started u x hu hstarted
  · rw [Function.update_of_ne hin, hthrough, hkeys, htaken]
    exact h.input
  · rw [Function.update_self]
    exact houtput
  · rw [Function.update_self]
    exact hwhole

/-- A step of the connection that moves no bytes. -/
theorem Wired.quiet (h : Wired term n c translate F tr g w) {t : Tid}
    {x : Event (E := Eff D) Eff.Res}
    (hin : traffic (fun o _ => outboxIn c o) [(t, x)] = [])
    (hout : traffic (inboxOut c) [(t, x)] = []) (hspawned : w'.spawned = w.spawned)
    (hterm : term w'.net = term w.net) :
    Wired term n c translate F (tr ++ [(t, x)]) g w' := by
  have hthrough : ∀ (u : Tid) (f : (o : Op D) → o.Res → List UInt8), traffic f [(t, x)] = [] →
      through u f (tr ++ [(t, x)]) = through u f tr := by
    intro u f hf
    by_cases hu : t = u
    · subst hu
      rw [through_self, hf, List.append_nil]
    · exact through_ne hu f tr x
  have hframe : Wired term n c translate F tr g w' :=
    h.frame (hspawned ▸ List.Subset.refl _) (fun u hu => .inl (hspawned ▸ hu)) hterm
  refine ⟨hframe.suits, hframe.sound, hframe.fresh, hframe.called, hframe.spawned,
    hframe.started, ?_, ?_, ?_⟩
  · rw [hthrough _ _ hin]
    exact hframe.input
  · rw [hthrough _ _ hout]
    exact hframe.output
  · rw [hthrough _ _ hout]
    exact hframe.whole

/-- The first byte that the session reads is the channel. -/
theorem serves_first {channel : UInt8} {p p' : Terminal} (htaken : p.taken = 0)
    {r : Except IoError (Vector UInt8 1)} (h : p.serves channel (.readExact 1) (.ready r) p') :
    p'.keys = p.keys ∧ p'.sent = p.sent ∧
      ((∃ x, r = .error x) ∧ p'.taken = 0 ∨
        (∃ v, r = .ok v ∧ v.toList.headD 0 = channel) ∧ p'.taken = 1) := by
  rcases h with ⟨hr, -⟩ | ⟨hlen, hr, rfl⟩ | ⟨x, k, hk, -, hr, rfl⟩
  · cases hr
  · refine ⟨rfl, rfl, .inr ⟨⟨_, Poll.ready.inj hr, ?_⟩, ?_⟩⟩
    · have hdrop : (p.output channel).drop p.taken = p.output channel := by
        rw [htaken, List.drop_zero]
      rw [takeVector_toList, hdrop]
      rw [hdrop] at hlen
      unfold Terminal.output at hlen ⊢
      split at hlen
      · cases hlen
      · rfl
    · show p.taken + 1 = 1
      rw [htaken]
  · refine ⟨rfl, rfl, .inl ⟨⟨x, Poll.ready.inj hr⟩, ?_⟩⟩
    show p.taken + k = 0
    omega

section ready

variable {env : Env D F N} {t : Tid}

/-- The session, before and after its channel byte. -/
theorem Wired.session_ready (hatt : Attached env term (idOf c) translate n)
    (h : Wired term n c translate F tr g w) {e : Eff D} {r : e.Res}
    (hstage : g (.attach n) = .calling ∨ ∃ channel, g (.attach n) = .called channel)
    (hallow : (wiring n).allows (g (.attach n)) e)
    (hpoll : poll env (.attach n) e w (.ready r) w') :
    Wired term n c translate F (tr ++ [(.attach n, ⟨e, r⟩)])
      (Function.update g (.attach n) ((wiring n).next (g (.attach n)) e r)) w' := by
  rcases hstage with hstage | ⟨channel, hstage⟩
  · rw [hstage] at hallow ⊢
    have hzero := h.fresh (.inr hstage)
    have hnone : ∀ u ch, u.child = some (n, ch) → u ∉ w.spawned := by
      intro u ch hu hmem
      have hpos := (h.spawned u ch hu hmem).2
      omega
    cases e with
    | io i =>
      cases i with
      | readExact k =>
        -- the byte that names the channel: the session may spawn its tasks afterwards
        cases (hallow : k = 1)
        obtain ⟨x, hnet, rfl⟩ := hpoll
        have hserves := hatt.own rfl hnet
        obtain ⟨hkeys, hsent, hread⟩ := serves_first hzero hserves
        have hsound := h.sound.serves hserves
        refine h.session { w with net := x } _ ?_ hkeys hsent hsound ?_ ?_ ?_
          (List.Subset.refl _) (fun u ch hu hmem => absurd hmem (hnone u ch hu)) (.inr ⟨_, rfl⟩)
        · rcases hread with ⟨⟨y, rfl⟩, -⟩ | ⟨⟨v, rfl, -⟩, -⟩ <;> rfl
        · show (term x).taken - 1 = _
          rcases hread with ⟨-, ht⟩ | ⟨-, ht⟩ <;> omega
        · rcases hread with ⟨⟨y, rfl⟩, ht⟩ | ⟨⟨v, rfl, -⟩, -⟩
          · exact fun _ => ht
          · rintro (hs | hs) <;> cases hs
        · rcases hread with ⟨⟨y, rfl⟩, -⟩ | ⟨⟨v, rfl, hv⟩, ht⟩
          · intro channel hs
            cases hs
          · intro channel hs
            cases hs
            exact ⟨hv, ht ▸ Nat.one_pos⟩
      | _ => cases hallow
    | _ => cases hallow
  · rw [hstage] at hallow ⊢
    obtain ⟨hchannel, hpos⟩ := h.called channel hstage
    cases e with
    -- its two tasks
    | spawn u =>
      obtain ⟨-, rfl⟩ := hpoll
      have hu : u.child = some (n, channel) := hallow
      have hspawned : ∀ v ch, v.child = some (n, ch) → v ∈ u :: w.spawned →
          ch = idOf c ∧ 0 < (term w.net).taken := by
        intro v ch hv hmem
        rcases List.mem_cons.mp hmem with rfl | hmem
        · rw [hu] at hv
          cases hv
          exact ⟨hchannel, hpos⟩
        · exact h.spawned v ch hv hmem
      refine h.session { w with spawned := u :: w.spawned } (.called channel) rfl rfl rfl
        h.sound rfl ?_ ?_ (List.subset_cons_self _ _) hspawned (.inr ⟨_, rfl⟩)
      · rintro (hs | hs) <;> cases hs
      · intro ch hs
        cases hs
        exact ⟨hchannel, hpos⟩
    | select u v =>
      obtain ⟨rfl, -⟩ := hpoll
      refine h.session w' (.called channel) rfl rfl rfl h.sound rfl ?_ ?_ (List.Subset.refl _)
        h.spawned (.inr ⟨_, rfl⟩)
      · rintro (hs | hs) <;> cases hs
      · intro ch hs
        cases hs
        exact ⟨hchannel, hpos⟩
    | _ => cases hallow

/-- The channel of a task that has started. -/
theorem Wired.channel_eq (h : Wired term n c translate F tr g w) {u : Tid} {channel : UInt8}
    (hu : u.child = some (n, channel)) (hon : g u ≠ .off) :
    channel = idOf c ∧ u ∈ w.spawned ∧ 0 < (term w.net).taken := by
  have hmem := h.started u (n, channel) hu hon
  obtain ⟨hchannel, hpos⟩ := h.spawned u channel hu hmem
  exact ⟨hchannel, hmem, hpos⟩

theorem idOf_val {c' : Channel} (h : c'.val = (idOf c).toNat) : c' = c := by
  rw [idOf_toNat] at h
  exact Fin.ext h

/-- The inbound task. -/
theorem Wired.inbound_ready (hatt : Attached env term (idOf c) translate n)
    (h : Wired term n c translate F tr g w) {bytes : List UInt8} {e : Eff D} {r : e.Res}
    (hstage : g (.attachIn n (idOf c)) = .typing (idOf c) bytes)
    (hallow : (wiring n).allows (g (.attachIn n (idOf c))) e)
    (hpoll : poll env (.attachIn n (idOf c)) e w (.ready r) w') :
    Wired term n c translate F (tr ++ [(.attachIn n (idOf c), ⟨e, r⟩)])
      (Function.update g (.attachIn n (idOf c)) ((wiring n).next (g (.attachIn n (idOf c))) e r))
      w' := by
  obtain ⟨-, hmem, hpos⟩ := h.channel_eq (u := .attachIn n (idOf c)) rfl
    (by rw [hstage]; exact fun h => by cases h)
  have hinput := h.input
  rw [hstage] at hallow hinput ⊢
  cases e with
  | lock l m =>
    have hsame := h.quiet (t := .attachIn n (idOf c)) (x := ⟨.lock l m, r⟩) rfl rfl
      (poll_spawned hpoll fun u hu => by cases hu)
      (congrArg term (poll_net hpoll fun i hi => by cases hi))
    rwa [← Function.update_eq_self (.attachIn n (idOf c)) g, hstage] at hsame
  | unlock l =>
    have hsame := h.quiet (t := .attachIn n (idOf c)) (x := ⟨.unlock l, r⟩) rfl rfl
      (poll_spawned hpoll fun u hu => by cases hu)
      (congrArg term (poll_net hpoll fun i hi => by cases hi))
    rwa [← Function.update_eq_self (.attachIn n (idOf c)) g, hstage] at hsame
  | io i =>
    cases i with
    | read k =>
      cases (hallow : bytes = [])
      obtain ⟨x, hnet, rfl⟩ := hpoll
      have hserves := hatt.own (t := .attachIn n (idOf c)) rfl hnet
      have hsound := h.sound.serves hserves
      have hnone : through (.attachIn n (idOf c)) (fun o _ => outboxIn c o)
          (tr ++ [(.attachIn n (idOf c), ⟨.io (.read k), r⟩)]) =
          through (.attachIn n (idOf c)) (fun o _ => outboxIn c o) tr := by
        rw [through_self]
        exact List.append_nil _
      rcases hserves with ⟨hr, -⟩ | ⟨j, -, hj, -, hr, hterm⟩ | ⟨y, hr, hterm⟩
      · cases hr
      · cases hr
        refine h.inbound { w with net := x } (.typing (idOf c) _) rfl hmem rfl ?_ hsound ?_
          (.inr ⟨_, rfl⟩) ?_
        · rw [hterm]
        · rw [hterm]
          exact Nat.le_add_right _ _
        · -- the next bytes of the socket
          rw [hnone, hterm]
          show (term w.net).keys.written.take ((term w.net).taken + j - 1) = _ ++
            (((term w.net).output (idOf c)).drop (term w.net).taken).take j
          have hout : (term w.net).output (idOf c) = idOf c :: (term w.net).keys.written := by
            have htaken := h.sound.taken
            unfold Terminal.output at htaken ⊢
            split
            · rename_i hconn
              rw [hconn] at htaken
              exact absurd htaken (by simp; omega)
            · rfl
          have hdrop : (idOf c :: (term w.net).keys.written).drop (term w.net).taken =
              (term w.net).keys.written.drop ((term w.net).taken - 1) := by
            obtain ⟨m, hm⟩ := Nat.exists_eq_succ_of_ne_zero hpos.ne'
            rw [hm]
            rfl
          have hsub : (term w.net).taken + j - 1 = (term w.net).taken - 1 + j := by omega
          rw [hout, hdrop, hsub, List.take_add, hinput]
          show (_ ++ []) ++ _ = _
          rw [List.append_nil]
      · cases hr
        refine h.inbound { w with net := x } (.typing (idOf c) _) rfl hmem rfl ?_ hsound ?_
          (.inr ⟨_, rfl⟩) ?_
        · rw [hterm]
        · rw [hterm]
        · rw [hnone, hterm]
          exact hinput
    | _ => cases hallow
  | op o =>
    cases o with
    | outboxExtend c' bs =>
      obtain ⟨hc, rfl⟩ := hallow
      obtain rfl := idOf_val hc
      have hnet := poll_net hpoll fun i hi => by cases hi
      refine h.inbound w' (.typing (idOf c') []) rfl hmem
        (poll_spawned hpoll fun u hu => by cases hu) ?_ ?_ ?_ (.inr ⟨_, rfl⟩) ?_
      · rw [hnet]
      · rw [hnet]
        exact h.sound
      · rw [hnet]
      · rw [hnet, hinput, through_self]
        show _ ++ bs = (_ ++ ((if c' = c' then bs else []) ++ [])) ++ []
        rw [if_pos rfl, List.append_nil, List.append_nil]
    | _ => cases hallow
  | _ => cases hallow

/-- The outbound task. -/
theorem Wired.outbound_ready (hatt : Attached env term (idOf c) translate n)
    (h : Wired term n c translate F tr g w) {bytes : List UInt8} {e : Eff D} {r : e.Res}
    (hstage : g (.attachOut n (idOf c)) = .showing (idOf c) bytes)
    (hallow : (wiring n).allows (g (.attachOut n (idOf c))) e)
    (hpoll : poll env (.attachOut n (idOf c)) e w (.ready r) w') :
    Wired term n c translate F (tr ++ [(.attachOut n (idOf c), ⟨e, r⟩)])
      (Function.update g (.attachOut n (idOf c)) ((wiring n).next (g (.attachOut n (idOf c))) e r))
      w' := by
  obtain ⟨-, hmem, -⟩ := h.channel_eq (u := .attachOut n (idOf c)) rfl
    (by rw [hstage]; exact fun h => by cases h)
  have hwhole := h.whole (by rw [hstage]; exact fun h => by cases h)
    (by rw [hstage]; exact fun _ h => by cases h)
  -- a step that moves nothing
  have hquiet : (∀ i, e ≠ .io i) → (∀ u, e ≠ .spawn u) →
      traffic (fun o _ => outboxIn c o) [((.attachOut n (idOf c), ⟨e, r⟩) : SysLabel D)] = [] →
      traffic (inboxOut c) [((.attachOut n (idOf c), ⟨e, r⟩) : SysLabel D)] = [] →
      (wiring n).next (g (.attachOut n (idOf c))) e r = g (.attachOut n (idOf c)) →
      Wired term n c translate F (tr ++ [(.attachOut n (idOf c), ⟨e, r⟩)])
        (Function.update g (.attachOut n (idOf c))
          ((wiring n).next (g (.attachOut n (idOf c))) e r)) w' := by
    intro hio hspawn hin hout hnext
    rw [hnext, Function.update_eq_self]
    exact h.quiet hin hout (poll_spawned hpoll hspawn) (congrArg term (poll_net hpoll hio))
  rw [hstage] at hallow hwhole hquiet ⊢
  cases e with
  | lock l m => exact hquiet (fun i hi => by cases hi) (fun u hu => by cases hu) rfl rfl rfl
  | unlock l => exact hquiet (fun i hi => by cases hi) (fun u hu => by cases hu) rfl rfl rfl
  | notified c' => exact hquiet (fun i hi => by cases hi) (fun u hu => by cases hu) rfl rfl rfl
  | never => exact hquiet (fun i hi => by cases hi) (fun u hu => by cases hu) rfl rfl rfl
  | io i =>
    cases i with
    | writeAll bs =>
      cases (hallow : bs = bytes)
      obtain ⟨x, hnet, rfl⟩ := hpoll
      have hserves := hatt.own (t := .attachOut n (idOf c)) rfl hnet
      have hsound := h.sound.serves hserves
      have hnone : through (.attachOut n (idOf c)) (inboxOut c)
          (tr ++ [(.attachOut n (idOf c), ⟨.io (.writeAll bytes), r⟩)]) =
          through (.attachOut n (idOf c)) (inboxOut c) tr := by
        rw [through_self]
        exact List.append_nil _
      rcases hserves with ⟨hr, -⟩ | ⟨hr, hterm⟩ | ⟨y, k, hr, hterm⟩
      · cases hr
      · cases hr
        have hall : (term x).sent ++ [] = through (.attachOut n (idOf c)) (inboxOut c) tr := by
          rw [hterm, List.append_nil]
          exact hwhole
        refine h.outbound { w with net := x } (.showing (idOf c) []) rfl hmem rfl ?_ ?_ hsound
          (.inr ⟨_, rfl⟩) ?_ ?_
        · rw [hterm]
        · rw [hterm]
        · rw [hnone]
          exact ⟨[], by rw [List.append_nil]; exact hall⟩
        · intro _ _
          rw [hnone]
          exact hall
      · cases hr
        refine h.outbound { w with net := x } (.broken (idOf c)) rfl hmem rfl ?_ ?_ hsound
          (.inr ⟨_, rfl⟩) ?_ fun _ hbroken => absurd rfl (hbroken _)
        · rw [hterm]
        · rw [hterm]
        · -- a part of the bytes, and none of the next ones
          rw [hnone, hterm, ← hwhole]
          show ((term w.net).sent ++ bytes.take k) ++ [] <+: (term w.net).sent ++ bytes
          rw [List.append_nil]
          exact (List.prefix_append_right_inj _).mpr (List.take_prefix _ _)
    | _ => cases hallow
  | op o =>
    cases o with
    | inboxDrain c' =>
      obtain ⟨hc, rfl⟩ := hallow
      obtain rfl := idOf_val hc
      have hnet := poll_net hpoll fun i hi => by cases hi
      have hall : (term w.net).sent ++ r = through (.attachOut n (idOf c')) (inboxOut c')
          (tr ++ [(.attachOut n (idOf c'), ⟨.op (.inboxDrain c'), r⟩)]) := by
        rw [through_self, ← hwhole]
        show _ = (_ ++ []) ++ ((if c' = c' then r else []) ++ [])
        rw [if_pos rfl, List.append_nil, List.append_nil]
      refine h.outbound w' (.showing (idOf c') r) rfl hmem
        (poll_spawned hpoll fun u hu => by cases hu) ?_ ?_ ?_ (.inr ⟨_, rfl⟩) ?_ ?_
      · rw [hnet]
      · rw [hnet]
      · rw [hnet]
        exact h.sound
      · rw [hnet]
        exact ⟨[], by rw [List.append_nil]; exact hall⟩
      · intro _ _
        rw [hnet]
        exact hall
    | _ => cases hallow
  | _ => cases hallow

/-- **Step lemma.** -/
theorem Wired.ready (hatt : Attached env term (idOf c) translate n)
    (h : Wired term n c translate F tr g w) {e : Eff D} {r : e.Res}
    (hallow : (wiring n).allows (g t) e) (hpoll : poll env t e w (.ready r) w') :
    Wired term n c translate F (tr ++ [(t, ⟨e, r⟩)])
      (Function.update g t ((wiring n).next (g t) e r)) w' := by
  have hsuits := h.suits t
  -- the role of the task says which effects it may have come to
  cases hstage : g t with
  | off =>
    rw [hstage] at hallow
    cases hallow
  | gone =>
    rw [hstage] at hallow
    cases hallow
  | broken channel =>
    rw [hstage] at hallow
    cases hallow
  | other =>
    rw [hstage] at hallow hsuits
    have hspawned := (poll_ready hpoll).2.2.2
    have hframe : Wired term n c translate F tr g w' := by
      refine h.frame ?_ ?_ ?_
      · rw [hspawned]
        cases e with
        | spawn u => exact List.subset_cons_self _ _
        | _ => exact List.Subset.refl _
      · rw [hspawned]
        intro u hu
        cases e with
        | spawn v =>
          rcases List.mem_cons.mp hu with rfl | hu
          · exact .inr hallow
          · exact .inl hu
        | _ => exact .inl hu
      · by_cases hio : ∃ i, e = .io i
        · obtain ⟨i, rfl⟩ := hio
          obtain ⟨x, hnet, rfl⟩ := hpoll
          exact hatt.others hsuits hnet
        · exact congrArg term (poll_net hpoll fun i hi => hio ⟨i, hi⟩)
    have hnext : (wiring n).next .other e r = .other := by
      cases e <;> rfl
    rw [hnext]
    refine hframe.others hsuits hsuits (fun x hx _ => ?_) (.inr ⟨_, rfl⟩)
    exact hframe.started t x hx (by rw [hstage]; exact fun h => by cases h)
  | calling =>
    rw [hstage] at hsuits
    subst hsuits
    have hready := h.session_ready hatt (.inl hstage) hallow hpoll
    rwa [hstage] at hready
  | called channel =>
    rw [hstage] at hsuits
    subst hsuits
    have hready := h.session_ready hatt (.inr ⟨channel, hstage⟩) hallow hpoll
    rwa [hstage] at hready
  | typing channel bytes =>
    rw [hstage] at hsuits
    subst hsuits
    obtain ⟨rfl, -, -⟩ := h.channel_eq (u := .attachIn n channel) rfl
      (by rw [hstage]; exact fun h => by cases h)
    have hready := h.inbound_ready hatt hstage hallow hpoll
    rwa [hstage] at hready
  | showing channel bytes =>
    rw [hstage] at hsuits
    subst hsuits
    obtain ⟨rfl, -, -⟩ := h.channel_eq (u := .attachOut n channel) rfl
      (by rw [hstage]; exact fun h => by cases h)
    have hready := h.outbound_ready hatt hstage hallow hpoll
    rwa [hstage] at hready

end ready

/-! ## Section 6: Runs -/

section runs

variable [VDisk D] [UnicodeTables] {env : Env D F N}

def wiringDiscipline (env : Env D F N) (n : Nat) : Discipline (system env) Role where
  toProtocol := wiring n
  off        := .off
  gone       := .gone
  enter      := Role.enter n
  leave      := Role.Leaves n
  body_obeys := body_wiring n

omit [VDisk D] [UnicodeTables] in
theorem enter_other {t : Tid} (ht : connectionOf t ≠ some n) : Role.enter n t = .other := by
  cases t with
  | attach m => exact if_neg fun h => ht (congrArg some h)
  | attachIn m channel => exact if_neg fun h => ht (congrArg some h)
  | attachOut m channel => exact if_neg fun h => ht (congrArg some h)
  | _ => rfl

omit [VDisk D] [UnicodeTables] in
/-- A task that has started goes on in the role that it has at the start. -/
theorem Wired.enter_eq (h : Wired term n c translate F tr g w) {t : Tid}
    (hleave : Role.Leaves n t .again (g t)) : g t = Role.enter n t := by
  have hsuits := h.suits t
  cases hstage : g t with
  | other =>
    rw [hstage] at hsuits
    exact (enter_other hsuits).symm
  | typing channel bytes =>
    rw [hstage] at hsuits hleave
    subst hsuits
    obtain ⟨rfl, -, -⟩ := h.channel_eq (u := .attachIn n channel) rfl
      (by rw [hstage]; exact fun h => by cases h)
    have hlt : (idOf c).toNat < vserialChannels := by
      rw [idOf_toNat]
      exact c.isLt
    rw [(hleave hlt : bytes = [])]
    exact (if_pos rfl).symm
  | showing channel bytes =>
    rw [hstage] at hsuits hleave
    subst hsuits
    rw [(hleave : bytes = [])]
    exact (if_pos rfl).symm
  | _ =>
    rw [hstage] at hleave
    cases hleave

omit [VDisk D] [UnicodeTables] in
theorem Wired.starts (h : Wired term n c translate F tr g w) {t : Tid} (hoff : g t = .off)
    (hmay : ∀ x, t.child = some x → t ∈ w.spawned) :
    Wired term n c translate F tr (Function.update g t (Role.enter n t)) w := by
  -- a task of the connection enters its own role, with nothing in hand
  by_cases ht : connectionOf t = some n
  · cases t with
    | attach m =>
      cases ht
      have henter : Role.enter n (.attach n) = .calling := if_pos rfl
      rw [henter]
      refine h.session w .calling rfl rfl rfl h.sound rfl (fun _ => h.fresh (.inl hoff)) ?_
        (List.Subset.refl _) h.spawned (.inl rfl)
      exact fun _ hs => by cases hs
    | attachIn m channel =>
      cases ht
      have hmem := hmay (n, channel) rfl
      obtain ⟨rfl, -⟩ := h.spawned _ channel rfl hmem
      have henter : Role.enter n (.attachIn n (idOf c)) = .typing (idOf c) [] := if_pos rfl
      have hinput := h.input
      rw [hoff] at hinput
      rw [henter]
      exact h.inbound w (.typing (idOf c) []) rfl hmem rfl rfl h.sound le_rfl (.inl rfl) hinput
    | attachOut m channel =>
      cases ht
      have hmem := hmay (n, channel) rfl
      obtain ⟨rfl, -⟩ := h.spawned _ channel rfl hmem
      have henter : Role.enter n (.attachOut n (idOf c)) = .showing (idOf c) [] := if_pos rfl
      have houtput := h.output
      have hwhole := h.whole (by rw [hoff]; exact fun h => by cases h)
        (by rw [hoff]; exact fun _ h => by cases h)
      rw [hoff] at houtput hwhole
      rw [henter]
      exact h.outbound w (.showing (idOf c) []) rfl hmem rfl rfl rfl h.sound (.inl rfl) houtput
        fun _ _ => hwhole
    | _ => cases ht
  · rw [enter_other ht]
    exact h.others (s := .other) ht ht (fun x hx _ => hmay x hx) (.inl rfl)

omit [VDisk D] [UnicodeTables] in
theorem Wired.ends (h : Wired term n c translate F tr g w) {t : Tid} {x : Exit}
    (hleave : Role.Leaves n t (.done x) (g t)) :
    Wired term n c translate F tr (Function.update g t .gone)
      { w with exited := t :: w.exited } := by
  have hframe : Wired term n c translate F tr g { w with exited := t :: w.exited } :=
    h.frame (List.Subset.refl _) (fun _ hu => .inl hu) rfl
  have hsuits := h.suits t
  cases hstage : g t with
  | other =>
    rw [hstage] at hsuits
    exact hframe.others (s := .gone) hsuits trivial (fun x hx _ => hframe.started t x hx
      (by rw [hstage]; exact fun h => by cases h)) (.inl rfl)
  | calling =>
    rw [hstage] at hsuits
    subst hsuits
    exact hframe.session _ .gone trivial rfl rfl h.sound rfl
      (fun hs => by rcases hs with hs | hs <;> cases hs) (fun _ hs => by cases hs)
      (List.Subset.refl _) h.spawned (.inl rfl)
  | called channel =>
    rw [hstage] at hsuits
    subst hsuits
    exact hframe.session _ .gone trivial rfl rfl h.sound rfl
      (fun hs => by rcases hs with hs | hs <;> cases hs) (fun _ hs => by cases hs)
      (List.Subset.refl _) h.spawned (.inl rfl)
  -- the inbound task ends at a read, so it has nothing in hand
  | typing channel bytes =>
    rw [hstage] at hsuits hleave
    subst hsuits
    obtain ⟨rfl, hmem, -⟩ := h.channel_eq (u := .attachIn n channel) rfl
      (by rw [hstage]; exact fun h => by cases h)
    have hlt : (idOf c).toNat < vserialChannels := by
      rw [idOf_toNat]
      exact c.isLt
    have hinput := h.input
    rw [hstage, (hleave hlt : bytes = [])] at hinput
    exact hframe.inbound _ .gone trivial hmem rfl rfl h.sound le_rfl (.inl rfl) hinput
  -- the outbound task ends when a write has failed: what it had in hand is lost
  | broken channel =>
    rw [hstage] at hsuits
    subst hsuits
    obtain ⟨rfl, hmem, -⟩ := h.channel_eq (u := .attachOut n channel) rfl
      (by rw [hstage]; exact fun h => by cases h)
    have houtput := h.output
    rw [hstage] at houtput
    exact hframe.outbound _ .gone trivial hmem rfl rfl rfl h.sound (.inl rfl) houtput
      fun hne => absurd rfl hne
  | _ =>
    rw [hstage] at hleave
    cases hleave

omit [VDisk D] [UnicodeTables] in
theorem serves_pending {channel : UInt8} {p p' : Terminal} {i : Io}
    (h : p.serves channel i .pending p') : p' = p := by
  cases i with
  | readExact k =>
    rcases h with ⟨-, hsame⟩ | ⟨hlen, hr, -⟩ | ⟨x, k, -, -, hr, -⟩
    · exact hsame
    · cases hr
    · cases hr
  | read k =>
    rcases h with ⟨-, hsame⟩ | ⟨j, -, -, -, hr, -⟩ | ⟨x, hr, -⟩
    · exact hsame
    · cases hr
    · cases hr
  | writeAll bs =>
    rcases h with ⟨-, hsame⟩ | ⟨hr, -⟩ | ⟨x, k, hr, -⟩
    · exact hsame
    · cases hr
    · cases hr
  | nextLine => exact h.2
  | nextCall => exact h.2

theorem wiringDiscipline_keeps (hatt : Attached env term (idOf c) translate n)
    (ok : SysConfig D F N → SysLabel D → Prop) :
    (wiringDiscipline env n).KeepsAlong ok (Wired term n c translate F) where
  start := by
    intro tr g w t h hoff hmay
    refine h.starts hoff fun x hx => ?_
    cases t with
    | attachIn m channel => exact hmay
    | attachOut m channel => exact hmay
    | _ => cases hx
  again := by
    intro tr g w t h hleave
    show Wired term n c translate F tr (Function.update g t (Role.enter n t)) w
    rw [← h.enter_eq hleave, Function.update_eq_self]
    exact h
  exit := fun tr g w t x h hleave => h.ends hleave
  pending := by
    intro tr g w t e w' h _ hpoll
    -- a task that waits moves nothing, its own peer included
    have hspawned := (poll_pending hpoll).2.2.1
    refine h.frame (hspawned ▸ List.Subset.refl _) (fun u hu => .inl (hspawned ▸ hu)) ?_
    by_cases hio : ∃ i, e = .io i
    · obtain ⟨i, rfl⟩ := hio
      obtain ⟨x, hnet, rfl⟩ := hpoll
      by_cases ht : connectionOf t = some n
      · exact serves_pending (hatt.own ht hnet)
      · exact hatt.others ht hnet
    · exact congrArg term (poll_net hpoll fun i hi => hio ⟨i, hi⟩)
  ready := fun tr cfg g t e k r w' h _ _ hallow _ hpoll => ⟨trivial, h.ready hatt hallow hpoll⟩
  ambient := by
    rintro tr g w w' h ⟨x, hstep, rfl⟩
    rcases hatt.alone hstep with halone | hsame
    · exact h.alone halone
    · exact h.frame (List.Subset.refl _) (fun _ hu => .inl hu) hsame

/-- What a run with such a client has reached. -/
theorem wired_run (hatt : Attached env term (idOf c) translate n) {s : Server D} {f : F} {x : N}
    (hnew : term x = .new) {ok : SysConfig D F N → SysLabel D → Prop} {cfg : SysConfig D F N}
    (hrun : Run (system env) ok (Config.initial (World.initial s f x)) tr cfg) :
    ∃ g, (wiringDiscipline env n).Holds (Wired term n c translate F tr) cfg g := by
  refine (wiringDiscipline env n).run_along (wiringDiscipline_keeps hatt ok) hrun ?_
  refine (wiringDiscipline env n).holds_initial ?_
  refine ⟨fun _ => trivial, ?_, fun _ => ?_, (fun _ h => by cases h), (fun _ _ _ h => by cases h),
    fun _ _ _ h => absurd rfl h, ?_, ?_, fun _ _ => ?_⟩
  · show (term x).Sound (idOf c) translate
    rw [hnew]
    exact Terminal.sound_new _ _
  · show (term x).taken = 0
    rw [hnew]
    rfl
  · show (term x).keys.written.take ((term x).taken - 1) = []
    rw [hnew]
    rfl
  · show (term x).sent ++ [] <+: []
    rw [hnew]
    exact List.prefix_rfl
  · show (term x).sent ++ [] = []
    rw [hnew]
    rfl

/-- The step takes bytes out of the inbox of the channel. -/
def Drains (c : Channel) (l : SysLabel D) : Prop := l.2.1 = .op (.inboxDrain c)

omit [VDisk D] [UnicodeTables] in
/-- If one task does all of it, it does it in the order of the trace. -/
theorem through_all {t : Tid} {f : (o : Op D) → o.Res → List UInt8} {tr : List (SysLabel D)}
    (h : ∀ l ∈ tr, traffic f [l] ≠ [] → l.1 = t) : through t f tr = traffic f tr := by
  induction tr with
  | nil => rfl
  | cons l tr ih =>
    have hcons : traffic f (l :: tr) = traffic f [l] ++ traffic f tr := by
      simp [traffic]
    have ih := ih fun l' hl' => h l' (List.mem_cons_of_mem _ hl')
    unfold through at ih ⊢
    by_cases hl : l.1 = t
    · rw [List.filter_cons_of_pos (by simpa using hl), hcons, ← ih]
      simp [traffic]
    · have hnone : traffic f [l] = [] := by
        by_contra hne
        exact hl (h l List.mem_cons_self hne)
      rw [List.filter_cons_of_neg (by simpa using hl), hcons, hnone, List.nil_append]
      exact ih

omit [VDisk D] [UnicodeTables] in
theorem sends_of_traffic {l : SysLabel D} (h : traffic (fun o _ => outboxIn c o) [l] ≠ []) :
    Sends c l := by
  by_contra hnot
  apply h
  exact traffic_of_not_sends fun l' hl' => List.mem_singleton.mp hl' ▸ hnot

omit [VDisk D] [UnicodeTables] in
theorem drains_of_traffic {l : SysLabel D} (h : traffic (inboxOut c) [l] ≠ []) : Drains c l := by
  obtain ⟨t, e, r⟩ := l
  cases e with
  | op o =>
    cases o with
    | inboxDrain c' =>
      by_cases hc : c' = c
      · subst hc
        rfl
      · exact absurd (by simp [traffic, inboxOut, hc]) h
    | _ => exact absurd rfl h
  | _ => exact absurd rfl h

/-- All that was typed has been read, no byte is on its way, and the guest is
    between two polls. -/
structure KeysRest (g n : Nat) (c : Channel) (cfg : SysConfig D F (Poller × (Terminal × N))) :
    Prop where
  accepted : cfg.world.net.2.1.keys.ended ≠ .refused
  read     : cfg.world.net.2.1.taken = cfg.world.net.2.1.keys.written.length + 1
  inbound  : ∃ k, cfg.task (.attachIn n (idOf c)) = .live (.eff (.io (.read 1024)) k)
  queue    : cfg.world.server.vserialOutbox c = []
  guest    : Between g cfg

variable (rest : Env D F N) (translate n) in
/-- **What is typed arrives.**  In every run in which only the attach session
    sends to its channel, the guest that polls has taken the bytes that were
    queued before and then a prefix of what the keys are forwarded as: the
    keys before the first Ctrl-A q, with Ctrl-A Ctrl-A as one Ctrl-A, in the
    order in which they were typed.  When nothing is on its way it has taken
    all of them.  The client's copying is the loop `stdin_to_sock`. -/
theorem keys_arrive (g : Nat) (c : Channel) (s : Server D) (f : F) (x : N)
    (hlast : s.vserialOutbox lastChannel = []) {tr : List (SysLabel D)}
    {cfg : SysConfig D F (Poller × (Terminal × N))}
    (hrun : Run (system (withPoller (withTerminal (idOf c) translate n rest) g))
      (fun _ l => ¬ Sends lastChannel l ∧ (Sends c l → l.1 = .attachIn n (idOf c)))
      (Config.initial (World.initial s f (Poller.new, Terminal.new, x))) tr cfg) :
    cfg.world.net.1.taken (idOf c) <+:
      s.vserialOutbox c ++ forwarded cfg.world.net.2.1.typed ∧
    (KeysRest g n c cfg → cfg.world.net.1.taken (idOf c) =
      s.vserialOutbox c ++ forwarded cfg.world.net.2.1.typed) ∧
    Loops stdinToSock cfg.world.net.2.1.typed cfg.world.net.2.1.keys := by
  obtain ⟨turns, hturns⟩ := polling_run (withTerminal (idOf c) translate n rest) g s f
    (Terminal.new, x) hlast (hrun.mono fun _ _ h => h.1)
  obtain ⟨fl, hagree, hdelivers, -⟩ := hturns.1.agree
  obtain ⟨roles, hwired, hfits⟩ := wired_run (F := F)
    ((attached_terminal (idOf c) translate n rest).withPoller g) rfl hrun
  have honly : through (.attachIn n (idOf c)) (fun o _ => outboxIn c o) tr =
      traffic (fun o _ => outboxIn c o) tr := by
    have hok : ∀ l ∈ tr, Sends c l → l.1 = .attachIn n (idOf c) :=
      hrun.forall_label fun _ _ h => h.2
    exact through_all fun l hl hne => hok l hl (sends_of_traffic hne)
  -- every byte that was written to the socket is at one place
  have hinput := hwired.input
  have hall := hdelivers c
  rw [honly] at hinput
  obtain ⟨hand, hhand⟩ : ∃ hand, hand = (roles (.attachIn n (idOf c))).hand := ⟨_, rfl⟩
  rw [← hhand] at hinput
  have hplaces : s.vserialOutbox c ++ cfg.world.net.2.1.keys.written =
      cfg.world.net.1.taken (idOf c) ++ (fl.bytes c ++ cfg.world.server.vserialOutbox c ++ hand ++
        cfg.world.net.2.1.keys.written.drop (cfg.world.net.2.1.taken - 1)) := by
    conv_lhs => rw [← List.take_append_drop (cfg.world.net.2.1.taken - 1)
      cfg.world.net.2.1.keys.written]
    rw [hinput]
    simp only [← List.append_assoc]
    rw [hall]
  have hkeys := hwired.sound.keys
  refine ⟨?_, fun hrest => ?_, hwired.sound.copyIn⟩
  · have hstart : cfg.world.net.1.taken (idOf c) <+:
        s.vserialOutbox c ++ cfg.world.net.2.1.keys.written := ⟨_, hplaces.symm⟩
    exact hstart.trans ((List.prefix_append_right_inj _).mpr hkeys.start)
  · -- and all these places are empty
    have hnone : hand = [] := by
      obtain ⟨k, hk⟩ := hrest.inbound
      have hfit := hfits (.attachIn n (idOf c))
      rw [hk] at hfit
      have hallow : (wiring n).allows (roles (.attachIn n (idOf c))) (.io (.read 1024)) := hfit.1
      rw [hhand]
      cases hrole : roles (.attachIn n (idOf c)) with
      | typing channel bytes =>
        rw [hrole] at hallow
        exact hallow
      | showing channel bytes =>
        rw [hrole] at hallow
        cases hallow
      | _ => rfl
    have hflight : fl.bytes c = [] := by
      have hready : cfg.world.net.1.phase = .ready := by
        rw [hrest.guest.quiet]
      rw [ready_flight hagree hready]
      rfl
    have hwhole := hkeys.whole hrest.accepted
    rw [hflight, hnone, hrest.queue, hrest.read, Nat.add_sub_cancel, List.drop_length] at hplaces
    rw [← hwhole, hplaces]
    simp

/-- The outbound task waits for more, and the screen shows all that it was
    sent. -/
structure ScreenRest (n : Nat) (c : Channel) (cfg : SysConfig D F (Terminal × N)) : Prop where
  outbound : ∃ c' k, cfg.task (.attachOut n (idOf c)) = .live (.eff (.notified c') k)
  queue    : cfg.world.server.vserialInbox c = []
  seen     : cfg.world.net.1.seen = cfg.world.net.1.sent.length
  accepted : cfg.world.net.1.screen.ended ≠ .refused

variable (rest : Env D F N) (translate n) in
/-- **What guests write is shown.**  In every run in which only the attach
    session drains its channel, the screen shows a prefix of what guests have
    written to the channel, with every line terminator as CR LF unless
    `--raw` is given; and all of it when nothing is on its way, up to a CR
    at the end that is held back.  What guests have written is what their
    frames carry, and the client's copying is the loop `sock_to_stdout`. -/
theorem screen_shows (c : Channel) (s : Server D) (f : F) (x : N) {tr : List (SysLabel D)}
    {cfg : SysConfig D F (Terminal × N)}
    (hrun : Run (system (withTerminal (idOf c) translate n rest))
      (fun _ l => Drains c l → l.1 = .attachOut n (idOf c))
      (Config.initial (World.initial s f (Terminal.new, x))) tr cfg) :
    cfg.world.net.1.screen.written <+:
      shownAs translate (s.vserialInbox c ++ traffic (fun o _ => inboxIn c o) tr) ∧
    (ScreenRest n c cfg →
      cfg.world.net.1.screen.written ++ (if cfg.world.net.1.screen.flag then [CR, LF] else []) =
        shownAs translate (s.vserialInbox c ++ traffic (fun o _ => inboxIn c o) tr)) ∧
    FromFrames c tr ∧
    Loops (sockToStdout translate) (cfg.world.net.1.sent.take cfg.world.net.1.seen)
      cfg.world.net.1.screen := by
  obtain ⟨roles, hwired, hfits⟩ := wired_run (F := F)
    (attached_terminal (idOf c) translate n rest) rfl hrun
  have honly : through (.attachOut n (idOf c)) (inboxOut c) tr = traffic (inboxOut c) tr := by
    have hok : ∀ l ∈ tr, Drains c l → l.1 = .attachOut n (idOf c) :=
      hrun.forall_label fun _ l (h : Drains c l → l.1 = .attachOut n (idOf c)) => h
    exact through_all fun l hl hne => hok l hl (drains_of_traffic hne)
  have hconserves := run_conserves (fun s => s.vserialInbox c) (fun o => inboxIn c o) (inboxOut c)
    (run_inbox c) hrun
  have hstream : s.vserialInbox c ++ traffic (fun o _ => inboxIn c o) tr =
      traffic (inboxOut c) tr ++ cfg.world.server.vserialInbox c := hconserves
  have houtput := hwired.output
  rw [honly] at houtput
  have hscreen := hwired.sound.screen
  refine ⟨?_, fun hrest => ?_, run_fromFrames hrun c, hwired.sound.copyOut⟩
  · -- what was read is a prefix of what was sent, and that of what was drained
    have hshown : cfg.world.net.1.sent.take cfg.world.net.1.seen <+:
        s.vserialInbox c ++ traffic (fun o _ => inboxIn c o) tr := by
      rw [hstream]
      exact (List.take_prefix _ _).trans ((List.prefix_append _ _).trans
        (houtput.trans (List.prefix_append _ _)))
    obtain ⟨more, hmore⟩ := hshown
    rw [← hmore, ← display_output]
    exact hscreen.start.trans ((display_append translate _ more).trans (List.prefix_append _ _))
  · -- the outbound task waits, so it has nothing in hand
    obtain ⟨c', k, hk⟩ := hrest.outbound
    have hfit := hfits (.attachOut n (idOf c))
    rw [hk] at hfit
    have hallow : (wiring n).allows (roles (.attachOut n (idOf c))) (.notified c') := hfit.1
    have hsent : cfg.world.net.1.sent = traffic (inboxOut c) tr := by
      have hwhole := hwired.whole
      rw [honly] at hwhole
      cases hrole : roles (.attachOut n (idOf c)) with
      | showing channel bytes =>
        rw [hrole] at hallow hwhole
        have heq := hwhole (fun h => by cases h) fun _ h => by cases h
        rw [(hallow : bytes = [])] at heq
        exact (List.append_nil _).symm.trans heq
      | other =>
        have hsuits := hwired.suits (.attachOut n (idOf c))
        rw [hrole] at hsuits
        exact absurd rfl hsuits
      | _ =>
        rw [hrole] at hallow
        cases hallow
    have hall := hscreen.whole hrest.accepted
    rw [hrest.seen, List.take_length, hsent] at hall
    rw [hstream, hrest.queue, List.append_nil, ← display_output, hall]

end runs

/-! ## Section 7: One key, and one line -/

/-- The socket, when all goes well. -/
def Terminal.answer (channel : UInt8) : (i : Io) → Terminal → Poll i.Res × Terminal
  | .readExact n, p =>
    if h : n ≤ ((p.output channel).drop p.taken).length then
      (.ready (.ok (takeVector n ((p.output channel).drop p.taken) h)),
        { p with taken := p.taken + n })
    else (.pending, p)
  | .read n, p =>
    if 1 ≤ n ∧ p.taken + 1 ≤ (p.output channel).length then
      (.ready (.ok (((p.output channel).drop p.taken).take 1)), { p with taken := p.taken + 1 })
    else (.pending, p)
  | .writeAll bs, p => (.ready (.ok ()), { p with sent := p.sent ++ bs })
  | .nextLine, p => (.pending, p)
  | .nextCall, p => (.pending, p)

theorem Terminal.answer_serves (channel : UInt8) (i : Io) (p : Terminal) :
    p.serves channel i (p.answer channel i).1 (p.answer channel i).2 := by
  cases i with
  | readExact n =>
    by_cases h : n ≤ ((p.output channel).drop p.taken).length
    · rw [Terminal.answer, dif_pos h]
      exact .inr (.inl ⟨h, rfl, rfl⟩)
    · rw [Terminal.answer, dif_neg h]
      exact .inl ⟨rfl, rfl⟩
  | read n =>
    by_cases h : 1 ≤ n ∧ p.taken + 1 ≤ (p.output channel).length
    · rw [Terminal.answer, if_pos h]
      exact .inr (.inl ⟨1, h.1, h.2, (fun h => by cases h), rfl, rfl⟩)
    · rw [Terminal.answer, if_neg h]
      exact .inl ⟨rfl, rfl⟩
  | writeAll bs => exact .inr (.inl ⟨rfl, rfl⟩)
  | nextLine => exact ⟨rfl, rfl⟩
  | nextCall => exact ⟨rfl, rfl⟩

/-- The answers to the session of a client, and of scripted peers. -/
def besideClient : Answers Unit Unit (Terminal × (Tid → Peer)) where
  net := fun t i x =>
    if connectionOf t = some 0 then ((x.1.answer 1 i).1, ((x.1.answer 1 i).2, x.2))
    else (((x.2 t).answer i).1, (x.1, Function.update x.2 t ((x.2 t).answer i).2))
  sys := fun y f => (y.answer, f)

/-- The same next to a guest that polls. -/
def besideBoth : Answers Unit Unit (Poller × (Terminal × (Tid → Peer))) where
  net := fun t i x =>
    if t = .guest 0 then ((x.1.answer i).1, ((x.1.answer i).2, x.2))
    else ((besideClient.net t i x.2).1, (x.1, (besideClient.net t i x.2).2))
  sys := fun y f => (y.answer, f)

abbrev clientEnv : Env Unit Unit (Terminal × (Tid → Peer)) := withTerminal 1 true 0 scripted

abbrev bothEnv : Env Unit Unit (Poller × (Terminal × (Tid → Peer))) := withPoller clientEnv 0

theorem besideClient_net (t : Tid) (i : Io) (x : Terminal × (Tid → Peer)) :
    clientEnv.net t i x (besideClient.net t i x).1 (besideClient.net t i x).2 := by
  by_cases ht : connectionOf t = some 0
  · simp only [besideClient, if_pos ht]
    exact .inl ⟨ht, x.1.answer_serves 1 i, rfl⟩
  · simp only [besideClient, if_neg ht]
    exact .inr ⟨ht, rfl, rfl, rfl⟩

theorem besideBoth_net (t : Tid) (i : Io) (x : Poller × (Terminal × (Tid → Peer))) :
    bothEnv.net t i x (besideBoth.net t i x).1 (besideBoth.net t i x).2 := by
  by_cases ht : t = .guest 0
  · simp only [besideBoth, if_pos ht]
    exact .inl ⟨ht, rfl, rfl⟩
  · simp only [besideBoth, if_neg ht]
    exact .inr ⟨ht, rfl, besideClient_net t i x.2⟩

abbrev ClientConfig : Type := SysConfig Unit Unit (Terminal × (Tid → Peer))

abbrev BothConfig : Type := SysConfig Unit Unit (Poller × (Terminal × (Tid → Peer)))

abbrev clientSystem : Runtime Tid (Eff Unit) Eff.Res
    (World Unit Unit (Terminal × (Tid → Peer))) Exit :=
  @system Unit Unit _ noDisk asciiTables clientEnv

abbrev bothSystem : Runtime Tid (Eff Unit) Eff.Res
    (World Unit Unit (Poller × (Terminal × (Tid → Peer)))) Exit :=
  @system Unit Unit _ noDisk asciiTables bothEnv

/-- The client after it has sent its channel, and after `A` was typed. -/
def typedOne : Terminal :=
  { Terminal.new with connection := .copying, typed := [0x41], keys := ⟨[0x41], false, .reading⟩ }

def bothStart : BothConfig :=
  Config.initial
    (World.initial (Server.new Unit) () (Poller.new, Terminal.new, fun _ => .sending []))

def startBoth : Tid → World Unit Unit (Poller × (Terminal × (Tid → Peer))) → Bool
  | .guest n, _ => n = 0
  | t, w => Answers.start t w

theorem startBoth_spec (t : Tid) (w : World Unit Unit (Poller × (Terminal × (Tid → Peer))))
    (h : startBoth t w = true) : mayStart bothEnv t w := by
  cases t with
  | guest n => exact .inl ⟨n, rfl, of_decide_eq_true h⟩
  | _ => exact Answers.mayStart_of_start (.inr ⟨(fun k hk => by cases hk), .inr trivial⟩) h

def keyTurns : List Tid :=
  List.replicate 5 (Tid.attach 0) ++ List.replicate 6 (Tid.attachIn 0 1) ++ [.guest 0]

def afterKey : BothConfig :=
  schedule bothSystem besideBoth.poll startBoth
    (withNet bothStart (Poller.new, typedOne, fun _ => .sending [])) keyTurns

/-- The guest polls. -/
def afterPoll : BothConfig :=
  schedule bothSystem besideBoth.poll startBoth
    (withNet afterKey (⟨[0x43], [], .reply, fun _ => [], []⟩, afterKey.world.net.2))
    (List.replicate 6 (.guest 0))

def afterTake : BothConfig :=
  withNet afterPoll (afterPoll.world.net.1.handle 2 0x41 [], afterPoll.world.net.2)

def keyLabels : List (SysLabel Unit) :=
  scheduleLabels bothSystem besideBoth.poll startBoth
      (withNet bothStart (Poller.new, typedOne, fun _ => .sending [])) keyTurns ++
    scheduleLabels bothSystem besideBoth.poll startBoth
      (withNet afterKey (⟨[0x43], [], .reply, fun _ => [], []⟩, afterKey.world.net.2))
      (List.replicate 6 (.guest 0))

set_option maxRecDepth 100000 in
theorem afterTake_run : Run bothSystem anyStep bothStart keyLabels afterTake := by
  have hconnect : Step bothSystem bothStart none (withNet bothStart
      (Poller.new, { Terminal.new with connection := .copying }, fun _ => .sending [])) :=
    ambient_step (.inr ⟨rfl, .inl ⟨.connect _ rfl, rfl⟩⟩)
  have hkey : Step bothSystem (withNet bothStart
      (Poller.new, { Terminal.new with connection := .copying }, fun _ => .sending [])) none
      (withNet bothStart (Poller.new, typedOne, fun _ => .sending [])) :=
    ambient_step (.inr ⟨rfl, .inl ⟨.key _ ⟨[0x41], true⟩ 0 rfl rfl (by decide), rfl⟩⟩)
  have hsession : Run bothSystem anyStep _ _ afterKey :=
    run_schedule (besideBoth.poll_spec_in besideBoth_net fun _ _ _ => rfl) startBoth_spec
      (withNet bothStart (Poller.new, typedOne, fun _ => .sending [])) keyTurns
      (scheduleMeets_any _ _)
  have hask : Step bothSystem afterKey none
      (withNet afterKey (⟨[0x43], [], .reply, fun _ => [], []⟩, afterKey.world.net.2)) :=
    ambient_step (.inl ⟨rfl, rfl⟩)
  have hpoll : Run bothSystem anyStep _ _ afterPoll :=
    run_schedule (besideBoth.poll_spec_in besideBoth_net fun _ _ _ => rfl) startBoth_spec
      (withNet afterKey (⟨[0x43], [], .reply, fun _ => [], []⟩, afterKey.world.net.2))
      (List.replicate 6 (.guest 0)) (scheduleMeets_any _ _)
  have htake : Step bothSystem afterPoll none afterTake :=
    ambient_step (.inl ⟨rfl, rfl⟩)
  have hstart : Run bothSystem anyStep bothStart [] _ :=
    ((Run.refl bothStart).silent hconnect).silent hkey
  exact (((hstart.trans hsession).silent hask).trans hpoll).silent htake

set_option maxRecDepth 100000 in
theorem keyLabels_meet : keyLabels.all (fun l =>
    sentTo l ≠ some lastChannel ∧ (sentTo l = some 1 → l.1 = .attachIn 0 1)) = true := rfl

set_option maxRecDepth 100000 in
theorem afterTake_rest : KeysRest 0 0 1 afterTake where
  accepted := fun h => by cases h
  read     := rfl
  inbound  := ⟨_, rfl⟩
  queue    := rfl
  guest    := ⟨rfl, rfl, rfl, rfl⟩

/-- `A` is typed, and arrives. -/
theorem keys_arrive_one : ∃ tr cfg, Run bothSystem
    (fun _ l => ¬ Sends lastChannel l ∧ (Sends 1 l → l.1 = .attachIn 0 (idOf 1))) bothStart tr cfg ∧
    KeysRest 0 0 1 cfg ∧ cfg.world.net.2.1.typed = [0x41] ∧ cfg.world.net.1.taken 1 = [0x41] := by
  have hmeets : ∀ l ∈ keyLabels,
      ¬ Sends lastChannel l ∧ (Sends 1 l → l.1 = .attachIn 0 (idOf 1)) := by
    intro l hl
    have hl := of_decide_eq_true (List.all_eq_true.mp keyLabels_meet l hl)
    exact ⟨fun h => hl.1 (sentTo_of_sends h), fun h => hl.2 (sentTo_of_sends h)⟩
  have hrun := afterTake_run.meets hmeets
  obtain ⟨-, hall, -⟩ := @keys_arrive Unit Unit (Tid → Peer) 0 true noDisk asciiTables scripted 0 1
    (Server.new Unit) () (fun _ => .sending []) rfl _ _ hrun
  have htyped : afterTake.world.net.2.1.typed = [0x41] := rfl
  refine ⟨_, _, hrun, afterTake_rest, htyped, ?_⟩
  have harrived := hall afterTake_rest
  rw [htyped] at harrived
  exact harrived.trans rfl

/-- A guest that writes a line to channel 1, in one SERWRITEM. -/
def lineWriter : Tid → Peer
  | .guest 0 => .sending [0x64, 0x01, 0x02, 0x41, 0x0D]
  | _ => .sending []

def lineStart : ClientConfig :=
  Config.initial (World.initial (Server.new Unit) () (Terminal.new, lineWriter))

/-- The client after it has sent its channel. -/
def attached : Terminal := { Terminal.new with connection := .copying }

theorem start_client (t : Tid) (w : World Unit Unit (Terminal × (Tid → Peer)))
    (h : Answers.start t w = true) : mayStart clientEnv t w :=
  Answers.mayStart_of_start (.inr trivial) h

def lineTurns : List Tid :=
  List.replicate 8 (Tid.guest 0) ++ List.replicate 5 (Tid.attach 0) ++
    List.replicate 11 (Tid.attachOut 0 1)

def afterLine : ClientConfig :=
  schedule clientSystem besideClient.poll Answers.start
    (withNet lineStart (attached, lineWriter)) lineTurns

def lineLabels : List (SysLabel Unit) :=
  scheduleLabels clientSystem besideClient.poll Answers.start
    (withNet lineStart (attached, lineWriter)) lineTurns

/-- The client has shown the line. -/
def shown : Terminal :=
  { attached with
    taken := 1, sent := [0x41, 0x0D], seen := 2, screen := ⟨[0x41], true, .reading⟩ }

set_option maxRecDepth 100000 in
theorem shown_run : Run clientSystem anyStep lineStart lineLabels
    (withNet afterLine (shown, afterLine.world.net.2)) := by
  have hconnect : Step clientSystem lineStart none
      (withNet lineStart (attached, lineWriter)) :=
    ambient_step (.inl ⟨.connect _ rfl, rfl⟩)
  have hsession : Run clientSystem anyStep _ _ afterLine :=
    run_schedule (besideClient.poll_spec_in besideClient_net fun _ _ _ => rfl) start_client
      (withNet lineStart (attached, lineWriter)) lineTurns (scheduleMeets_any _ _)
  have hshow : Step clientSystem afterLine none
      (withNet afterLine (shown, afterLine.world.net.2)) :=
    ambient_step (.inl ⟨.display _ 2 true 0 rfl rfl (by decide) (by decide), rfl⟩)
  have hstart : Run clientSystem anyStep lineStart [] _ := (Run.refl lineStart).silent hconnect
  exact (hstart.trans hsession).silent hshow

/-- The channel that a step drains. -/
def drainedFrom : SysLabel Unit → Option Channel
  | (_, ⟨.op (.inboxDrain c), _⟩) => some c
  | _ => none

set_option maxRecDepth 100000 in
theorem lineLabels_meet : lineLabels.all (fun l =>
    drainedFrom l = some 1 → l.1 = .attachOut 0 1) = true := rfl

set_option maxRecDepth 100000 in
theorem shown_rest : ScreenRest 0 1 (withNet afterLine (shown, afterLine.world.net.2)) where
  outbound := ⟨1, _, rfl⟩
  queue    := rfl
  seen     := rfl
  accepted := fun h => by cases h

set_option maxRecDepth 100000 in
/-- A line that a guest writes is shown, and its CR held back. -/
theorem screen_shows_line : ∃ tr cfg, Run clientSystem
    (fun _ l => Drains 1 l → l.1 = .attachOut 0 (idOf 1)) lineStart tr cfg ∧ ScreenRest 0 1 cfg ∧
    traffic (fun o _ => inboxIn 1 o) tr = [0x41, CR] ∧
    [0x41] ++ [CR, LF] = shownAs true (traffic (fun o _ => inboxIn 1 o) tr) ∧
    @FromFrames Unit noDisk asciiTables 1 tr := by
  have hmeets : ∀ l ∈ lineLabels, Drains 1 l → l.1 = .attachOut 0 (idOf 1) := by
    intro l hl hdrains
    have hl := of_decide_eq_true (List.all_eq_true.mp lineLabels_meet l hl)
    apply hl
    obtain ⟨t, e, r⟩ := l
    cases (hdrains : e = .op (.inboxDrain 1))
    rfl
  have hrun := shown_run.meets hmeets
  obtain ⟨-, hall, hframes, -⟩ := @screen_shows Unit Unit (Tid → Peer) 0 true noDisk asciiTables
    scripted 1 (Server.new Unit) () lineWriter _ _ hrun
  exact ⟨_, _, hrun, shown_rest, rfl, hall shown_rest, hframes⟩

end Cli

end DriveWire
