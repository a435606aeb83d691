import DriveWire.Stream.Machine
import DriveWire.Cli.Attach
import Mathlib.Data.List.TakeWhile

/-! # The Ctrl-A Escape

    A key stream is parsed from the left into Ctrl-A with the byte after it,
    and single other bytes.  However the keys are cut into reads, `attach`
    leaves at the first Ctrl-A q or Ctrl-A Q, and forwards what comes before
    it, with Ctrl-A Ctrl-A as a single Ctrl-A. -/

namespace DriveWire.Cli

open Streams

/-! ## Section 1: Keys -/

/-- Ctrl-A with the byte after it, or another byte. -/
inductive Key where
  | escaped : UInt8 → Key
  | plain   : (b : UInt8) → b ≠ ctrlA → Key
  deriving DecidableEq

namespace Key

/-- The key as it is typed. -/
def typed : Key → List UInt8
  | escaped b => [ctrlA, b]
  | plain b _ => [b]

/-- The key as it is forwarded. -/
def sent : Key → List UInt8
  | escaped b => if b = ctrlA then [ctrlA] else [ctrlA, b]
  | plain b _ => [b]

/-- Ctrl-A q or Ctrl-A Q. -/
def quits : Key → Bool
  | escaped b => b = 0x71 ∨ b = 0x51
  | plain _ _ => false

end Key

/-- The complete keys of a stream. -/
def keys : List UInt8 → List Key
  | [] => []
  | b :: bs =>
    if h : b = ctrlA then
      match bs with
      | [] => []
      | c :: cs => .escaped c :: keys cs
    else .plain b h :: keys bs

/-- Whether the stream ends with an unpaired Ctrl-A. -/
def unpaired : List UInt8 → Bool
  | [] => false
  | b :: bs =>
    if b = ctrlA then
      match bs with
      | [] => true
      | _ :: cs => unpaired cs
    else unpaired bs

/-- What is to be forwarded: the keys before the first that quits. -/
def forwarded (bs : List UInt8) : List UInt8 :=
  ((keys bs).takeWhile fun k => !k.quits).flatMap Key.sent

/-- The stream with each Ctrl-A doubled. -/
def doubled (w : List UInt8) : List UInt8 :=
  w.flatMap fun b => if b = ctrlA then [ctrlA, ctrlA] else [b]

@[simp] theorem keys_nil : keys [] = [] := by
  rw [keys]

@[simp] theorem keys_unpaired : keys [ctrlA] = [] := by
  rw [keys, dif_pos rfl]

@[simp] theorem keys_escaped (c : UInt8) (cs : List UInt8) :
    keys (ctrlA :: c :: cs) = .escaped c :: keys cs := by
  rw [keys, dif_pos rfl]

theorem keys_plain {b : UInt8} (h : b ≠ ctrlA) (bs : List UInt8) :
    keys (b :: bs) = .plain b h :: keys bs := by
  rw [keys.eq_def]
  exact dif_neg h

@[simp] theorem unpaired_nil : unpaired [] = false := by
  rw [unpaired]

@[simp] theorem unpaired_ctrlA : unpaired [ctrlA] = true := by
  rw [unpaired, if_pos rfl]

@[simp] theorem unpaired_escaped (c : UInt8) (cs : List UInt8) :
    unpaired (ctrlA :: c :: cs) = unpaired cs := by
  rw [unpaired, if_pos rfl]

theorem unpaired_plain {b : UInt8} (h : b ≠ ctrlA) (bs : List UInt8) :
    unpaired (b :: bs) = unpaired bs := by
  rw [unpaired.eq_def]
  exact if_neg h

/-- The keys, and an unpaired Ctrl-A, are the whole stream. -/
theorem typed_keys (bs : List UInt8) :
    (keys bs).flatMap Key.typed ++ (if unpaired bs then [ctrlA] else []) = bs := by
  induction bs using keys.induct with
  | case1 => simp
  | case2 => simp
  | case3 c cs ih =>
    rw [keys_escaped, unpaired_escaped]
    exact congrArg (fun bs => ctrlA :: c :: bs) ih
  | case4 b bs h ih =>
    rw [keys_plain h, unpaired_plain h]
    exact congrArg (List.cons b) ih

/-- Doubling is undone by forwarding. -/
theorem keys_doubled (w : List UInt8) :
    (∀ k ∈ keys (doubled w), k.quits = false) ∧
      (keys (doubled w)).flatMap Key.sent = w ∧ unpaired (doubled w) = false := by
  induction w with
  | nil => simp [doubled]
  | cons b w ih =>
    obtain ⟨hquits, hsent, hpaired⟩ := ih
    by_cases hb : b = ctrlA
    · subst hb
      have hstep : doubled (ctrlA :: w) = ctrlA :: ctrlA :: doubled w := rfl
      rw [hstep, keys_escaped, unpaired_escaped]
      refine ⟨?_, congrArg (List.cons ctrlA) hsent, hpaired⟩
      intro k hk
      rcases List.mem_cons.mp hk with rfl | hk
      · decide
      · exact hquits k hk
    · have hstep : doubled (b :: w) = b :: doubled w := by
        rw [doubled, List.flatMap_cons, if_neg hb]
        rfl
      rw [hstep, keys_plain hb, unpaired_plain hb]
      refine ⟨?_, congrArg (List.cons b) hsent, hpaired⟩
      intro k hk
      rcases List.mem_cons.mp hk with rfl | hk
      · rfl
      · exact hquits k hk

theorem forwarded_doubled (w : List UInt8) : forwarded (doubled w) = w := by
  obtain ⟨hquits, hsent, -⟩ := keys_doubled w
  have hall : (keys (doubled w)).takeWhile (fun k => !k.quits) = keys (doubled w) :=
    List.takeWhile_eq_self_iff.mpr fun k hk => by rw [hquits k hk]; rfl
  rw [forwarded, hall, hsent]

theorem any_quits_doubled (w : List UInt8) : (keys (doubled w)).any Key.quits = false := by
  obtain ⟨hquits, -, -⟩ := keys_doubled w
  exact List.any_eq_false.mpr fun k hk => by simp [hquits k hk]

/-! ## Section 2: The code as a machine -/

/-- What is appended to the output for one byte, and `escape_armed` after it. -/
def escaper : Machine Bool UInt8 UInt8 where
  step := fun escapeArmed b =>
    let (action, escapeArmed, out) := processInputByte b escapeArmed []
    ⟨escapeArmed, out, action = .exit⟩

theorem processInputByte_eq (b : UInt8) (escapeArmed : Bool) (out : List UInt8) :
    processInputByte b escapeArmed out =
      (if (escaper.step escapeArmed b).stopped then .exit else .proceed,
        (escaper.step escapeArmed b).state, out ++ (escaper.step escapeArmed b).output) := by
  cases escapeArmed with
  | true =>
    by_cases hctrl : b = ctrlA
    · simp [escaper, processInputByte, hctrl]
    · by_cases hq : b = 0x71 ∨ b = 0x51
      · simp [escaper, processInputByte, hctrl, hq]
      · simp [escaper, processInputByte, hctrl, hq]
  | false =>
    by_cases hctrl : b = ctrlA
    · simp [escaper, processInputByte, hctrl]
    · simp [escaper, processInputByte, hctrl]

theorem processBuffer_eq (bs : List UInt8) (escapeArmed : Bool) (out : List UInt8) :
    processBuffer bs escapeArmed out =
      (if (escaper.feed bs escapeArmed).stopped then .exit else .proceed,
        (escaper.feed bs escapeArmed).state, out ++ (escaper.feed bs escapeArmed).output) := by
  induction bs generalizing escapeArmed out with
  | nil =>
    show (_, escapeArmed, out) = (_, escapeArmed, out ++ [])
    rw [List.append_nil]
    rfl
  | cons b bs ih =>
    rw [processBuffer, processInputByte_eq, Machine.feed_cons]
    cases hstop : (escaper.step escapeArmed b).stopped with
    | true =>
      rw [Fed.andThen_stopped hstop, hstop]
      rfl
    | false =>
      rw [Fed.andThen_running hstop, if_neg Bool.false_ne_true]
      dsimp only
      rw [ih, List.append_assoc]

/-- The byte after Ctrl-A completes a key. -/
theorem escaper_armed (b : UInt8) : escaper.step true b =
    ⟨false, if (Key.escaped b).quits then [] else (Key.escaped b).sent,
      (Key.escaped b).quits⟩ := by
  by_cases hctrl : b = ctrlA
  · subst hctrl
    decide
  · by_cases hq : b = 0x71 ∨ b = 0x51
    · simp [escaper, processInputByte, Key.quits, hctrl, hq]
    · simp [escaper, processInputByte, Key.quits, Key.sent, hctrl, hq]

theorem escaper_plain {b : UInt8} (h : b ≠ ctrlA) : escaper.step false b = ⟨false, [b], false⟩ := by
  simp [escaper, processInputByte, h]

theorem forwarded_escaped (c : UInt8) (cs : List UInt8) :
    forwarded (ctrlA :: c :: cs) =
      if (Key.escaped c).quits then [] else (Key.escaped c).sent ++ forwarded cs := by
  rw [forwarded, keys_escaped]
  cases hq : (Key.escaped c).quits with
  | true => simp [hq]
  | false => simp [hq, forwarded]

theorem forwarded_plain {b : UInt8} (h : b ≠ ctrlA) (bs : List UInt8) :
    forwarded (b :: bs) = b :: forwarded bs := by
  rw [forwarded, keys_plain h]
  rfl

/-- The stream with the Ctrl-A that is held back while the escape is armed. -/
def withHeld (escapeArmed : Bool) (bs : List UInt8) : List UInt8 :=
  (if escapeArmed then [ctrlA] else []) ++ bs

/-- A Ctrl-A is held back until the next byte is known. -/
theorem escaper_computes : escaper.Computes forwarded
    (fun escapeArmed => if escapeArmed then [ctrlA] else []) (fun _ => []) where
  held := by
    intro escapeArmed
    cases escapeArmed with
    | true => simp [forwarded]
    | false => simp [forwarded]
  runs := by
    intro escapeArmed b bs hstop
    cases escapeArmed with
    -- the byte is the second of a key
    | true =>
      rw [escaper_armed] at hstop ⊢
      show forwarded (ctrlA :: b :: bs) = _ ++ forwarded bs
      have hq : (Key.escaped b).quits = false := hstop
      rw [forwarded_escaped, hq]
      rfl
    | false =>
      -- a Ctrl-A arms the escape, any other byte is a key by itself
      by_cases hctrl : b = ctrlA
      · subst hctrl
        rfl
      · rw [escaper_plain hctrl]
        exact forwarded_plain hctrl bs
  ends := by
    intro escapeArmed b bs hstop
    cases escapeArmed with
    | true =>
      rw [escaper_armed] at hstop ⊢
      have hq : (Key.escaped b).quits = true := hstop
      show forwarded (ctrlA :: b :: bs) = _
      rw [forwarded_escaped, hq]
      rfl
    | false =>
      by_cases hctrl : b = ctrlA
      · subst hctrl
        cases hstop
      · rw [escaper_plain hctrl] at hstop
        cases hstop

/-- When the machine stops, and in which state it is. -/
theorem escaper_state (bs : List UInt8) (escapeArmed : Bool) :
    (escaper.feed bs escapeArmed).stopped = (keys (withHeld escapeArmed bs)).any Key.quits ∧
    (escaper.feed bs escapeArmed).state =
      (!(keys (withHeld escapeArmed bs)).any Key.quits && unpaired (withHeld escapeArmed bs)) := by
  induction bs generalizing escapeArmed with
  | nil => cases escapeArmed <;> simp [withHeld, Fed.idle]
  | cons b bs ih =>
    rw [Machine.feed_cons]
    cases escapeArmed with
    | true =>
      have hkeys : keys (withHeld true (b :: bs)) = .escaped b :: keys bs := keys_escaped b bs
      have hpaired : unpaired (withHeld true (b :: bs)) = unpaired bs := unpaired_escaped b bs
      rw [hkeys, hpaired, List.any_cons, escaper_armed]
      cases hq : (Key.escaped b).quits with
      | true => exact ⟨rfl, rfl⟩
      | false =>
        rw [Fed.andThen_running rfl]
        exact ih false
    | false =>
      by_cases hctrl : b = ctrlA
      · subst hctrl
        exact ih true
      · have hkeys : keys (withHeld false (b :: bs)) = .plain b hctrl :: keys bs :=
          keys_plain hctrl bs
        have hpaired : unpaired (withHeld false (b :: bs)) = unpaired bs := unpaired_plain hctrl bs
        rw [hkeys, hpaired, List.any_cons, escaper_plain hctrl, Fed.andThen_running rfl]
        exact ih false

theorem escaper_output (bs : List UInt8) : (escaper.feed bs false).output = forwarded bs := by
  have hspec := escaper_computes.feed bs false
  simpa using hspec.symm

/-! ## Section 3: Any reads -/

/-- With every write accepted, `attach` does what the machine does. -/
theorem stdinToSock_eq {reads : List (List UInt8)} (hreads : [] ∉ reads) (escapeArmed : Bool) :
    stdinToSock (accepted reads) escapeArmed =
      ⟨(escaper.feed reads.flatten escapeArmed).output,
        (escaper.feed reads.flatten escapeArmed).state,
        if (escaper.feed reads.flatten escapeArmed).stopped then .exited else .reading⟩ := by
  rw [← Machine.feedReads_eq]
  induction reads generalizing escapeArmed with
  | nil => rfl
  | cons r rs ih =>
    have hne : r ≠ [] := fun h => hreads (h ▸ List.mem_cons_self)
    have ih := ih (fun h => hreads (List.mem_cons_of_mem _ h)) (escaper.feed r escapeArmed).state
    show stdinToSock (⟨r, true⟩ :: accepted rs) escapeArmed = _
    rw [stdinToSock, if_neg hne, processBuffer_eq]
    dsimp only
    rw [if_neg fun h => Bool.noConfusion h.2, Machine.feedReads]
    cases hstop : (escaper.feed r escapeArmed).stopped with
    | true =>
      rw [Fed.andThen_stopped hstop, hstop]
      rfl
    | false =>
      rw [Fed.andThen_running hstop, if_neg (by decide), ih]
      rfl

/-- A write that is refused loses what comes after, and nothing else. -/
theorem stdinToSock_prefix (rounds : List Round) (escapeArmed : Bool) :
    (stdinToSock rounds escapeArmed).written <+:
      (escaper.feed (rounds.flatMap Round.bytes) escapeArmed).output := by
  induction rounds generalizing escapeArmed with
  | nil => exact List.prefix_rfl
  | cons round rounds ih =>
    obtain ⟨bytes, accepted⟩ := round
    rw [stdinToSock, List.flatMap_cons]
    split
    · exact List.nil_prefix
    · rw [processBuffer_eq]
      dsimp only
      split
      · exact List.nil_prefix
      · cases hstop : (escaper.feed bytes escapeArmed).stopped with
        | true =>
          rw [if_pos rfl, Machine.feed_append, Fed.andThen_stopped hstop]
          exact List.prefix_rfl
        | false =>
          rw [if_neg (by decide), Machine.feed_append, Fed.andThen_running hstop]
          exact List.prefix_append_right_inj _ |>.mpr (ih _)

/-- **The escape is lossless and leaves when it is asked to.**  For every key
    stream, however it is cut into reads, `attach` leaves exactly if a key is
    Ctrl-A q or Ctrl-A Q; it forwards the keys before the first of these, and
    withholds only a final unpaired Ctrl-A.  Bytes that are typed with each
    Ctrl-A doubled are forwarded unchanged.  The keys and the unpaired Ctrl-A
    are the whole stream, and where a write is refused the rest is missing,
    and nothing else. -/
theorem escape_lossless (reads : List (List UInt8)) (hreads : [] ∉ reads) :
    ((stdinToSock (accepted reads) false).ended = .exited ↔
      ∃ k ∈ keys reads.flatten, k.quits = true) ∧
    (stdinToSock (accepted reads) false).written = forwarded reads.flatten ∧
    ((stdinToSock (accepted reads) false).flag = true ↔
      (∀ k ∈ keys reads.flatten, k.quits = false) ∧ unpaired reads.flatten = true) ∧
    (∀ w, reads.flatten = doubled w →
      stdinToSock (accepted reads) false = ⟨w, false, .reading⟩) ∧
    (keys reads.flatten).flatMap Key.typed ++ (if unpaired reads.flatten then [ctrlA] else []) =
      reads.flatten ∧
    ∀ rounds : List Round, rounds.map Round.bytes = reads →
      (stdinToSock rounds false).written <+: forwarded reads.flatten := by
  -- one machine for the whole stream; the reads only cut its input
  obtain ⟨hstop, hstate⟩ := escaper_state reads.flatten false
  have hheld : withHeld false reads.flatten = reads.flatten := rfl
  rw [hheld] at hstop hstate
  rw [stdinToSock_eq hreads, escaper_output]
  dsimp only
  rw [hstop, hstate]
  refine ⟨?_, rfl, ?_, ?_, typed_keys _, ?_⟩
  · cases hq : (keys reads.flatten).any Key.quits with
    | true => simpa using hq
    | false => simpa using hq
  · simp
  · intro w hw
    obtain ⟨-, -, hpaired⟩ := keys_doubled w
    rw [hw, forwarded_doubled, any_quits_doubled, hpaired]
    rfl
  · rintro rounds rfl
    have hprefix := stdinToSock_prefix rounds false
    rwa [escaper_output] at hprefix

/-- Two doubled Ctrl-As around a q, cut in the middle of both. -/
theorem escape_lossless_cut :
    stdinToSock (accepted [[0x01], [0x01, 0x71, 0x01], [0x01]]) false =
      ⟨[0x01, 0x71, 0x01], false, .reading⟩ :=
  (escape_lossless [[0x01], [0x01, 0x71, 0x01], [0x01]] (by decide)).2.2.2.1
    [0x01, 0x71, 0x01] (by decide)

end DriveWire.Cli
