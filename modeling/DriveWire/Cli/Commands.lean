import DriveWire.Server.ControlReply
import DriveWire.Server.Party

/-! # The Commands of the Client

    `dw mount`, `dw unmount` and `dw status` are the peer of a control session.
    Each sends one request, prints what comes back, and fails if that is an
    error.  What it prints is what has happened to the table of drives, and
    whatever it prints, the table was changed at most once. -/

namespace DriveWire

open Async Server

variable {D F N : Type}

namespace Cli

/-! ## Section 1: The client -/

theorem encode_eq (text : Text) : encode text = text.utf8Encode.data.toList := by
  rw [encode, byteArray_toList, ← String.toByteArray_ofList]
  rfl

theorem encode_nil : encode [] = [] := by
  rw [encode_eq]
  rfl

/-- A text that begins with the bytes of another begins with that text. -/
theorem prefix_of_encode {a b : Text} (h : encode a <+: encode b) : a <+: b := by
  obtain ⟨more, hmore⟩ := h
  rw [encode_eq, encode_eq] at hmore
  apply List.isPrefix_of_utf8Encode_append_eq_utf8Encode ⟨more.toArray⟩
  apply ByteArray.ext
  apply Array.toList_inj.mp
  rw [← hmore]
  simp

/-- The subcommands that use the control socket. -/
inductive Command where
  | mount   : (slot : UInt8) → (path : Text) → Command
  | unmount : (slot : UInt8) → Command
  | status  : Command

namespace Command

/-- `cmd` -/
def request : Command → Text
  | .mount slot path => mountRequest slot path
  | .unmount slot    => str "UNMOUNT " ++ decimal slot.toNat ++ str "\n"
  | .status          => str "STATUS\n"

/-- Whether the subcommand returns `Ok(())` when it has printed the reply. -/
def succeeds : Command → Text → Bool
  | .status, _ => true
  | _, reply   => !(str "ERROR").isPrefixOf reply

end Command

/-- How far `control_request` has come: it reads, it has read a terminal line,
    or the end of the stream, or it has returned an error. -/
inductive Ended where
  | reading  : Ended
  | terminal : Ended
  | eof      : Ended
  | failed   : Ended
  deriving DecidableEq

/-- `control_request`, with what has passed through its socket. -/
structure Caller where
  /-- What it has written. -/
  asked : Text
  /-- How much of that the server has read. -/
  taken : Nat
  /-- The bytes that the server has written. -/
  sent  : List UInt8
  out   : Text
  ended : Ended

namespace Caller

def new : Caller := ⟨[], 0, [], [], .reading⟩

/-- What the server has not read yet. -/
def unread (p : Caller) : Text := p.asked.drop p.taken

/-- A step of the client.  The server's end can be gone at any moment. -/
inductive Step (command : Command) : Caller → Caller → Prop where
  | write : ∀ (p : Caller) more, p.ended = .reading → p.asked ++ more <+: command.request →
      Step command p { p with asked := p.asked ++ more }
  | line : ∀ (p : Caller) line, p.ended = .reading → p.asked = command.request → '\n' ∉ line →
      encode (p.out ++ (line ++ ['\n'])) <+: p.sent →
      Step command p { p with
        out   := p.out ++ (line ++ ['\n'])
        ended := if isTerminal (line ++ ['\n']) then .terminal else .reading }
  | eof : ∀ (p : Caller) part, p.ended = .reading → p.asked = command.request → '\n' ∉ part →
      encode (p.out ++ part) = p.sent →
      Step command p { p with out := p.out ++ part, ended := .eof }
  | fail : ∀ p : Caller, p.ended = .reading → Step command p { p with ended := .failed }

/-- The socket, from the server's side.  When the client has ended, what it
    has written is read to the end, and the last line may be cut off. -/
def serves : (i : Io) → Caller → Poll i.Res → Caller → Prop
  | .nextLine, p, r, p' =>
    (r = .pending ∧ p' = p) ∨
    (∃ line rest, p.unread = line ++ '\n' :: rest ∧ '\n' ∉ line ∧
      r = .ready (.ok (some (stripCr line))) ∧
        p' = { p with taken := p.taken + (line.length + 1) }) ∨
    (p.ended ≠ .reading ∧ '\n' ∉ p.unread ∧ p.unread ≠ [] ∧
      r = .ready (.ok (some p.unread)) ∧ p' = { p with taken := p.asked.length }) ∨
    (p.ended ≠ .reading ∧ p.unread = [] ∧ r = .ready (.ok none) ∧ p' = p) ∨
    ∃ x, r = .ready (.error x) ∧ p' = p
  | .writeAll bs, p, r, p' =>
    (r = .pending ∧ p' = p) ∨
    (r = .ready (.ok ()) ∧ p' = { p with sent := p.sent ++ bs }) ∨
    ∃ x k, r = .ready (.error x) ∧ p' = { p with sent := p.sent ++ bs.take k }
  | _, p, r, p' => r = .pending ∧ p' = p

/-- What every reachable client satisfies. -/
structure Sound (command : Command) (p : Caller) : Prop where
  asked : p.asked <+: command.request
  whole : p.ended ≠ .reading → p.ended ≠ .failed → p.asked = command.request
  out   : encode p.out <+: p.sent
  lines : p.ended = .reading → ∃ lines, p.out = unlines lines ∧
    ∀ line ∈ lines, '\n' ∉ line ∧ isTerminal (line ++ ['\n']) = false
  last  : p.ended = .terminal → SelfDelimiting p.out

theorem sound_new (command : Command) : new.Sound command where
  asked := List.nil_prefix
  whole := fun h => absurd rfl h
  out   := by
    show encode [] <+: []
    rw [encode_nil]
  lines := fun _ => ⟨[], rfl, fun _ h => by cases h⟩
  last  := fun h => by cases h

variable {command : Command} {p p' : Caller}

theorem Step.reading (h : Step command p p') : p.ended = .reading := by
  cases h with
  | write more h => exact h
  | line line h => exact h
  | eof part h => exact h
  | fail h => exact h

theorem Step.kept (h : Step command p p') : p'.taken = p.taken ∧ p'.sent = p.sent := by
  cases h with
  | _ => exact ⟨rfl, rfl⟩

/-- **Step lemma** for the client. -/
theorem Step.sound (h : Step command p p') (hp : p.Sound command) : p'.Sound command := by
  cases h with
  | write more hreading hmore =>
    refine ⟨hmore, fun hne => absurd hreading hne, hp.out, hp.lines, fun h => ?_⟩
    rw [hreading] at h
    cases h
  | line line hreading hasked hline hsent =>
    obtain ⟨lines, hout, hall⟩ := hp.lines hreading
    have hmore : p.out ++ (line ++ ['\n']) = unlines (lines ++ [line]) := by
      rw [hout, unlines_append]
      simp [unlines]
    -- a terminal line ends the loop; any other one joins those that have been read
    cases hterminal : isTerminal (line ++ ['\n']) with
    | true =>
      refine ⟨hp.asked, fun _ _ => hasked, hsent, (fun h => by cases h), fun _ => ?_⟩
      refine ⟨lines, line, ?_, fun l hl => (hall l hl).1, fun l hl => (hall l hl).2, hline,
        hterminal⟩
      show p.out ++ (line ++ ['\n']) = _
      rw [hout, replyText]
    | false =>
      refine ⟨hp.asked, fun hne => absurd rfl hne, hsent, fun _ => ?_, fun h => by cases h⟩
      refine ⟨lines ++ [line], hmore, fun l hl => ?_⟩
      rcases List.mem_append.mp hl with hl | hl
      · exact hall l hl
      · rw [List.mem_singleton.mp hl]
        exact ⟨hline, hterminal⟩
  -- the end of the stream ends the loop as well, with what has come so far
  | eof part hreading hasked hpart hsent =>
    refine ⟨hp.asked, fun _ _ => hasked, ?_, (fun h => by cases h), fun h => by cases h⟩
    show encode (p.out ++ part) <+: p.sent
    rw [hsent]
  | fail hreading =>
    exact ⟨hp.asked, fun _ hne => absurd rfl hne, hp.out, (fun h => by cases h),
      fun h => by cases h⟩

/-- The server reads, and writes more. -/
theorem Sound.serves (hp : p.Sound command) {i : Io} {r : Poll i.Res}
    (h : p.serves i r p') : p'.Sound command := by
  have htaken : ∀ n, Sound command { p with taken := n } := fun n =>
    ⟨hp.asked, hp.whole, hp.out, hp.lines, hp.last⟩
  have hsent : ∀ bs, Sound command { p with sent := p.sent ++ bs } := fun bs =>
    ⟨hp.asked, hp.whole, hp.out.trans (List.prefix_append _ _), hp.lines, hp.last⟩
  cases i with
  | nextLine =>
    rcases h with ⟨-, rfl⟩ | ⟨line, rest, -, -, -, rfl⟩ | ⟨-, -, -, -, rfl⟩ | ⟨-, -, -, rfl⟩ |
      ⟨x, -, rfl⟩
    · exact hp
    · exact htaken _
    · exact htaken _
    · exact hp
    · exact hp
  | writeAll bs =>
    rcases h with ⟨-, rfl⟩ | ⟨-, rfl⟩ | ⟨x, k, -, rfl⟩
    · exact hp
    · exact hsent _
    · exact hsent _
  | readExact n => exact h.2 ▸ hp
  | read n => exact h.2 ▸ hp
  | nextCall => exact h.2 ▸ hp

theorem serves_pending {i : Io} (h : p.serves i .pending p') : p' = p := by
  cases i with
  | nextLine =>
    rcases h with ⟨-, rfl⟩ | ⟨line, rest, -, -, hr, -⟩ | ⟨-, -, -, hr, -⟩ | ⟨-, -, hr, -⟩ |
      ⟨x, hr, -⟩
    · rfl
    all_goals cases hr
  | writeAll bs =>
    rcases h with ⟨-, rfl⟩ | ⟨hr, -⟩ | ⟨x, k, hr, -⟩
    · rfl
    all_goals cases hr
  | readExact n => exact h.2
  | read n => exact h.2
  | nextCall => exact h.2

theorem serves_ended {i : Io} {r : Poll i.Res} (h : p.serves i r p') : p'.ended = p.ended := by
  cases i with
  | nextLine =>
    rcases h with ⟨-, rfl⟩ | ⟨line, rest, -, -, -, rfl⟩ | ⟨-, -, -, -, rfl⟩ | ⟨-, -, -, rfl⟩ |
      ⟨x, -, rfl⟩ <;> rfl
  | writeAll bs =>
    rcases h with ⟨-, rfl⟩ | ⟨-, rfl⟩ | ⟨x, k, -, rfl⟩ <;> rfl
  | readExact n => rw [h.2]
  | read n => rw [h.2]
  | nextCall => rw [h.2]

end Caller

/-! ## Section 2: The session -/

/-- What a reply says about the steps of its command, and that MOUNT and
    UNMOUNT are answered with OK or with an error. -/
structure Settles (line : Text) (es : List (Event (Eff.Res (D := D)))) (reply : Text) : Prop where
  atomic  : Atomic line es reply
  decided : verbOf line = str "MOUNT" ∨ verbOf line = str "UNMOUNT" →
    str "OK" <+: reply ∨ str "ERROR" <+: reply

/-- Where `handle_control` is: between two commands, or at a command, with the
    effects since it was read. -/
inductive Clerk (D : Type) where
  | idle : Clerk D
  | busy : (line : Text) → List (Event (Eff.Res (D := D))) → Clerk D

namespace Clerk

def next : Clerk D → (e : Eff D) → e.Res → Clerk D
  | .idle, .io .nextLine, .ok (some line) => if trim line = [] then .idle else .busy (trim line) []
  | .idle, _, _ => .idle
  | .busy _ _, .io _, _ => .idle
  | .busy line es, e, r => .busy line (es ++ [⟨e, r⟩])

/-- Each command is answered before the next line is read. -/
def Allows : Clerk D → Eff D → Prop
  | .idle, .io .nextLine => True
  | .busy line es, .io (.writeAll bs) => ∃ reply, bs = encode reply ∧ Settles line es reply
  | .idle, _ | .busy _ _, .io _ => False
  | .busy _ _, _ => True

end Clerk

def clerking : Protocol (Eff D) Eff.Res (Clerk D) where
  allows := Clerk.Allows
  admits := fun _ _ _ => True
  next   := Clerk.next

theorem clerking_aside (line : Text) (es : List (Event (Eff.Res (D := D)))) (e : Eff D)
    (he : Aside e) : (clerking (D := D)).allows (.busy line es) e ∧
      ∀ r, (clerking (D := D)).admits (.busy line es) e r →
        clerking.next (.busy line es) e r = .busy line (es ++ [⟨e, r⟩]) := by
  cases e with
  | io i => cases he
  | _ => exact ⟨trivial, fun _ _ => rfl⟩

section session

variable [VDisk D] [UnicodeTables]

theorem controlMount_decided (fields : List Text) (es : List (Event (Eff.Res (D := D)))) :
    (controlMount (D := D) fields).Obeys Prog.history es
      (fun reply _ => str "OK" <+: reply ∨ str "ERROR" <+: reply) := by
  unfold controlMount
  split
  · split
    · refine ⟨trivial, fun r _ => ?_⟩
      cases r with
      | ok d =>
        -- the table is changed in the scope of its guard
        refine ⟨trivial, fun _ _ => ⟨trivial, fun _ _ => ⟨trivial, fun _ _ => ?_⟩⟩⟩
        exact .inl ⟨_, rfl⟩
      | error e => exact .inr ⟨_, rfl⟩
    · exact .inr (badSlot_error _)
  · exact .inr ⟨_, rfl⟩

omit [VDisk D] in
theorem controlUnmount_decided (fields : List Text) (es : List (Event (Eff.Res (D := D)))) :
    (controlUnmount (D := D) fields).Obeys Prog.history es
      (fun reply _ => str "OK" <+: reply ∨ str "ERROR" <+: reply) := by
  unfold controlUnmount
  split
  · split
    · refine ⟨trivial, fun _ _ => ⟨trivial, fun _ _ => ⟨trivial, fun _ _ => ?_⟩⟩⟩
      exact .inl ⟨_, rfl⟩
    · exact .inr (badSlot_error _)
  · exact .inr ⟨_, rfl⟩

theorem handleControlCommand_settles (line : Text) :
    (handleControlCommand (D := D) line).Obeys Prog.history []
      (fun reply es => Settles line es reply) := by
  have hdecided : (handleControlCommand (D := D) line).Obeys Prog.history [] (fun reply _ =>
      verbOf line = str "MOUNT" ∨ verbOf line = str "UNMOUNT" →
        str "OK" <+: reply ∨ str "ERROR" <+: reply) := by
    unfold handleControlCommand
    split
    · rename_i hsplit
      rintro (h | h) <;> rw [verbOf, hsplit] at h <;> exact absurd h (by decide)
    · rename_i first fields hsplit
      have hverb : verbOf line = toAsciiUppercase first := by
        rw [verbOf, hsplit]
        rfl
      dsimp only
      split
      · exact (controlMount_decided _ _).mono fun _ _ h _ => h
      split
      · exact (controlUnmount_decided _ _).mono fun _ _ h _ => h
      -- the other verbs promise nothing
      rename_i hmount hunmount
      have hnone : ¬ (verbOf line = str "MOUNT" ∨ verbOf line = str "UNMOUNT") := by
        rw [hverb]
        exact fun h => h.elim hmount hunmount
      split
      · have hstatus : verbOf (str "STATUS") = str "STATUS" := by decide
        exact (controlStatus_atomic hstatus).mono fun _ _ _ h => absurd h hnone
      split
      · exact fun h => absurd h hnone
      · exact fun h => absurd h hnone
  exact ((handleControlCommand_atomic line).and hdecided).mono fun reply es h => ⟨h.1, h.2⟩

/-- **Step lemma** for the session. -/
theorem controlOnce_clerking :
    (controlOnce (D := D)).Obeys clerking .idle (fun _ st => st = .idle) := by
  refine controlOnce_obeys trivial (fun _ _ => rfl) (fun _ => rfl)
    (fun line htrim => if_pos htrim) fun line _ htrim => ?_
  have hbusy : (clerking (D := D)).next .idle (.io .nextLine) (.ok (some line)) =
      .busy (trim line) [] := if_neg htrim
  rw [hbusy]
  have hcommand := (handleControlCommand_aside (D := D) (trim line)).obeys_recording
    (handleControlCommand_settles (trim line)) (clerking_aside (trim line))
  refine hcommand.mono fun reply st hst => ?_
  obtain ⟨es, rfl, hsettles⟩ := hst
  exact ⟨⟨reply, rfl, hsettles⟩, fun _ _ => rfl, rfl⟩

end session

/-! ## Section 3: What has become of a request -/

/-- What has happened, at session `es` and socket `p`, to a request of one
    line that is trimmed to `line`. -/
inductive Handled (line request : Text) (p : Caller) (es : List (Event (Eff.Res (D := D)))) :
    Clerk D → Prop where
  | waiting : p.taken = 0 → p.sent = [] → changes es = [] → Handled line request p es .idle
  | working : ∀ es₁, p.taken = request.length → p.sent = [] → changes es = changes es₁ →
      es₁ ⊆ es → Handled line request p es (.busy line es₁)
  | replied : ∀ es₁ reply r, p.taken = request.length → changes es = changes es₁ → es₁ ⊆ es →
      Settles line es₁ reply → p.sent <+: encode reply →
      (⟨.io (.writeAll (encode reply)), r⟩ : Event (Eff.Res (D := D))) ∈ es →
      Handled line request p es .idle

theorem changes_snoc_io (es : List (Event (Eff.Res (D := D)))) (i : Io) (r : i.Res) :
    changes (es ++ [⟨.io i, r⟩]) = changes es := by
  simp [changes, Eff.change]

theorem changes_snoc (es es' : List (Event (Eff.Res (D := D)))) (h : changes es = changes es')
    (ev : Event (Eff.Res (D := D))) : changes (es ++ [ev]) = changes (es' ++ [ev]) := by
  rw [changes, changes, List.filterMap_append, List.filterMap_append]
  exact congrArg (· ++ _) h

theorem Handled.congr {line request : Text} {p p' : Caller}
    {es : List (Event (Eff.Res (D := D)))} {st : Clerk D} (h : Handled line request p es st)
    (htaken : p'.taken = p.taken) (hsent : p'.sent = p.sent) : Handled line request p' es st := by
  cases h with
  | waiting h₁ h₂ h₃ => exact .waiting (htaken.trans h₁) (hsent.trans h₂) h₃
  | working es₁ h₁ h₂ h₃ h₄ => exact .working es₁ (htaken.trans h₁) (hsent.trans h₂) h₃ h₄
  | replied es₁ reply r h₁ h₂ h₃ h₄ h₅ h₆ =>
    exact .replied es₁ reply r (htaken.trans h₁) h₂ h₃ h₄ (hsent ▸ h₅) h₆

/-- Effects that are not on the socket. -/
theorem Handled.aside {line request : Text} {p : Caller} {es : List (Event (Eff.Res (D := D)))}
    {st : Clerk D} (h : Handled line request p es st) {e : Eff D} (he : ∀ i, e ≠ .io i)
    (hallow : st.Allows e) (r : e.Res) :
    Handled line request p (es ++ [⟨e, r⟩]) (st.next e r) := by
  cases h with
  | working es₁ h₁ h₂ h₃ h₄ =>
    have hnext : (Clerk.busy line es₁).next e r = .busy line (es₁ ++ [⟨e, r⟩]) := by
      cases e with
      | io i => exact absurd rfl (he i)
      | _ => rfl
    rw [hnext]
    refine .working _ h₁ h₂ (changes_snoc es es₁ h₃ _) (List.append_subset.mpr ⟨?_, ?_⟩)
    · exact fun ev hev => List.mem_append_left _ (h₄ hev)
    · exact List.subset_append_right _ _
  | waiting | replied =>
    cases e with
    | io i => exact absurd rfl (he i)
    | _ => cases hallow

section socket

variable {command : Command} {p p' : Caller} {es : List (Event (Eff.Res (D := D)))} {st : Clerk D}
  {first : Text}

theorem takeWhile_line {line : Text} (h : '\n' ∉ line) (rest : Text) :
    (line ++ '\n' :: rest).takeWhile (fun c => c ≠ '\n') = line := by
  have hall : ∀ c ∈ line, decide (c ≠ '\n') = true := by
    intro c hc
    rw [decide_eq_true_iff]
    rintro rfl
    exact h hc
  rw [List.takeWhile_append_of_pos hall]
  simp

/-- The only line that the server can read is the whole request. -/
theorem unread_line (hp : p.Sound command) (hrequest : command.request = first ++ ['\n'])
    (hfirst : '\n' ∉ first) {line rest : Text} (htaken : p.taken = 0) (hline : '\n' ∉ line)
    (h : p.unread = line ++ '\n' :: rest) : line = first := by
  have hasked : p.asked = line ++ '\n' :: rest := by
    rw [← h, Caller.unread, htaken, List.drop_zero]
  obtain ⟨more, hmore⟩ := hp.asked
  rw [hasked, hrequest, List.append_assoc, List.cons_append] at hmore
  -- both are what stands before the first line feed
  rw [← takeWhile_line hline (rest ++ more), hmore, takeWhile_line hfirst]

/-- When the request has been read there is nothing left. -/
theorem unread_nil (hp : p.Sound command) (htaken : p.taken = command.request.length) :
    p.unread = [] := by
  apply List.drop_eq_nil_of_le
  rw [htaken]
  exact hp.asked.length_le

/-- **Step lemma** for the session and its socket. -/
theorem Handled.socket (hp : p.Sound command) (hfailed : p.ended ≠ .failed)
    (hrequest : command.request = first ++ ['\n']) (hfirst : '\n' ∉ first)
    (hblank : trim first ≠ []) (h : Handled (trim first) command.request p es st) {i : Io}
    (hallow : st.Allows (.io i)) {r : i.Res} (hserves : p.serves i (.ready r) p') :
    Handled (trim first) command.request p' (es ++ [⟨.io i, r⟩]) (st.next (.io i) r) := by
  cases h with
  | waiting htaken hsent hnone =>
    cases i with
    | nextLine =>
      have hstill : changes (es ++ [⟨.io .nextLine, r⟩]) = [] := by
        rw [changes_snoc_io, hnone]
      have hlf : p.ended ≠ .reading → '\n' ∈ p.unread := by
        intro hended
        rw [Caller.unread, htaken, List.drop_zero, hp.whole hended hfailed, hrequest]
        exact List.mem_append_right _ (List.mem_singleton_self _)
      rcases hserves with ⟨hr, -⟩ | ⟨line, rest, hunread, hline, hr, rfl⟩ |
        ⟨hended, hcut, -, -, -⟩ | ⟨hended, hnil, -, -⟩ | ⟨x, hr, rfl⟩
      · cases hr
      · cases hr
        have hfirst' := unread_line hp hrequest hfirst htaken hline hunread
        have hnext : Clerk.idle.next (D := D) (.io .nextLine) (.ok (some (stripCr line))) =
            .busy (trim first) [] := by
          rw [Clerk.next, trim_stripCr, hfirst', if_neg hblank]
        rw [hnext]
        refine .working [] ?_ hsent hstill (List.nil_subset _)
        show p.taken + (line.length + 1) = command.request.length
        rw [htaken, hfirst', hrequest, List.length_append, List.length_singleton, Nat.zero_add]
      · exact absurd (hlf hended) hcut
      · have hmem := hlf hended
        rw [hnil] at hmem
        cases hmem
      · cases hr
        exact .waiting htaken hsent hstill
    | _ => cases hallow
  | working es₁ htaken hsent hchanges hsub =>
    cases i with
    | writeAll bs =>
      obtain ⟨reply, rfl, hsettles⟩ := hallow
      have hsub' : es₁ ⊆ es ++ [⟨.io (.writeAll (encode reply)), r⟩] :=
        fun ev hev => List.mem_append_left _ (hsub hev)
      have hchanges' : changes (es ++ [⟨.io (.writeAll (encode reply)), r⟩]) = changes es₁ := by
        rw [changes_snoc_io, hchanges]
      have hwritten := List.mem_append_right es
        (List.mem_singleton_self (⟨.io (.writeAll (encode reply)), r⟩ : Event (Eff.Res (D := D))))
      show Handled _ _ p' _ .idle
      rcases hserves with ⟨hr, -⟩ | ⟨-, rfl⟩ | ⟨x, k, -, rfl⟩
      · cases hr
      · refine .replied es₁ reply r htaken hchanges' hsub' hsettles ?_ hwritten
        show p.sent ++ encode reply <+: encode reply
        rw [hsent, List.nil_append]
      · -- the write has failed after `k` bytes
        refine .replied es₁ reply r htaken hchanges' hsub' hsettles ?_ hwritten
        show p.sent ++ (encode reply).take k <+: encode reply
        rw [hsent, List.nil_append]
        exact List.take_prefix _ _
    | _ => cases hallow
  | replied es₁ reply r' htaken hchanges hsub hsettles hsent hwritten =>
    cases i with
    | nextLine =>
      have hnil := unread_nil hp htaken
      have hkeep : Handled (trim first) command.request p (es ++ [⟨.io .nextLine, r⟩]) .idle := by
        refine .replied es₁ reply r' htaken ?_ (fun ev hev => List.mem_append_left _ (hsub hev))
          hsettles hsent (List.mem_append_left _ hwritten)
        rw [changes_snoc_io, hchanges]
      rcases hserves with ⟨hr, -⟩ | ⟨line, rest, hunread, -, -, -⟩ | ⟨-, -, hne, -, -⟩ |
        ⟨-, -, hr, rfl⟩ | ⟨x, hr, rfl⟩
      · cases hr
      · rw [hnil] at hunread
        cases line <;> cases hunread
      · exact absurd hnil hne
      · cases hr
        exact hkeep
      · cases hr
        exact hkeep
    | _ => cases hallow

end socket

/-! ## Section 4: What a command is for -/

namespace Command

/-- The path is not empty, has no line feed, and does not end in white
    space: the server opens the file that the user has named. -/
def Plain : Command → Prop
  | .mount _ path => path ≠ [] ∧ DriveWire.Plain path
  | _ => True

/-- What was asked for has been done, by one step that changes the table. -/
def Done : Command → List (Event (Eff.Res (D := D))) → Prop
  | .mount slot path, es => ∃ d,
      (⟨.sys (.diskOpen path false), .ok d⟩ : Event (Eff.Res (D := D))) ∈ es ∧
        changes es = [.driveInsert slot d]
  | .unmount slot, es => changes es = [.driveRemove slot]
  | .status, es => changes es = []

/-- The verb and the slot, without the path. -/
def line : Command → Text
  | .mount slot path => mountHead slot ++ ' ' :: path
  | .unmount slot    => str "UNMOUNT" ++ ' ' :: decimal slot.toNat
  | .status          => str "STATUS"

theorem request_eq (command : Command) : command.request = command.line ++ ['\n'] := by
  cases command with
  | mount slot path => exact mountRequest_eq slot path
  | unmount slot => simp [request, line, str]
  | status => rfl

theorem line_ne_nil (command : Command) : command.line ≠ [] := by
  cases command with
  | _ => exact List.cons_ne_nil _ _

theorem unmount_plain : ∀ c ∈ str "UNMOUNT", isWhitespace c = false := by
  have hall : (str "UNMOUNT").all (fun c => !isWhitespace c) = true := by decide
  intro c hc
  simpa using List.all_eq_true.mp hall c hc

theorem splitn_unmount (slot : UInt8) :
    splitn isWhitespace 3 (line (.unmount slot)) = [str "UNMOUNT", decimal slot.toNat] := by
  have hplain : ∀ c ∈ decimal slot.toNat, isWhitespace c = false :=
    fun c hc => (decimal_plain _ c hc).1
  rw [line, splitn_cons unmount_plain rfl, splitn_last hplain]

theorem verbOf_mount (slot : UInt8) (path : Text) :
    verbOf (line (.mount slot path)) = str "MOUNT" := by
  rw [verbOf, line, splitn_mountLine]
  exact (by decide : toAsciiUppercase (str "MOUNT") = str "MOUNT")

theorem verbOf_unmount (slot : UInt8) : verbOf (line (.unmount slot)) = str "UNMOUNT" := by
  rw [verbOf, splitn_unmount]
  exact (by decide : toAsciiUppercase (str "UNMOUNT") = str "UNMOUNT")

variable {command : Command}

theorem line_lf (h : command.Plain) : '\n' ∉ command.line := by
  intro hmem
  cases command with
  | mount slot path =>
    rcases List.mem_append.mp hmem with hmem | hmem
    · exact mountHead_newline slot hmem
    · rcases List.mem_cons.mp hmem with hmem | hmem
      · exact absurd hmem (by decide)
      · exact h.2.1 hmem
  | unmount slot =>
    rcases List.mem_append.mp hmem with hmem | hmem
    · exact absurd hmem (by decide)
    · rcases List.mem_cons.mp hmem with hmem | hmem
      · exact absurd hmem (by decide)
      · exact (decimal_plain _ _ hmem).2 rfl
  | status => exact absurd hmem (by decide)

/-- The server finds the line as it was sent. -/
theorem trim_line (h : command.Plain) : trim command.line = command.line := by
  cases command with
  | mount slot path =>
    have htrim : path.rdropWhile isWhitespace = path := by
      rw [List.rdropWhile_eq_self_iff]
      intro hne
      rw [h.2.2 _ (List.getLast?_eq_some_getLast hne)]
      exact Bool.false_ne_true
    rw [line, trim_mountHead, htrim, if_neg h.1]
  | unmount slot =>
    have hne : decimal slot.toNat ≠ [] := Nat.toDigits_ne_nil
    have hdrop : (line (.unmount slot)).dropWhile isWhitespace = line (.unmount slot) :=
      List.dropWhile_cons_of_neg (by decide)
    have hdecimal : (decimal slot.toNat).rdropWhile isWhitespace = decimal slot.toNat := by
      rw [List.rdropWhile_eq_self_iff]
      intro _
      rw [(decimal_plain _ _ (List.getLast_mem hne)).1]
      exact Bool.false_ne_true
    have hline : line (.unmount slot) = str "UNMOUNT " ++ decimal slot.toNat := by
      simp [line, str]
    rw [trim_eq, hdrop, hline, rdropWhile_append, hdecimal, if_neg hne]
  | status => decide

/-- **What is replied has been done.** -/
theorem done_of_settles (h : command.Plain) {es es₁ : List (Event (Eff.Res (D := D)))}
    {reply : Text} (hsettles : Settles command.line es₁ reply) (hchanges : changes es = changes es₁)
    (hsub : es₁ ⊆ es) (hok : str "OK" <+: reply) : command.Done es := by
  cases command with
  | mount slot path =>
    obtain ⟨field, path', rest, m, d, hfields, hdenotes, hopened, hes⟩ :=
      hsettles.atomic.mounted (verbOf_mount slot path) hok
    rw [fieldsOf, line, splitn_mountLine] at hfields
    cases hfields
    cases hdenotes.unique (parseU8_denotes (parseU8_decimal slot))
    exact ⟨d, hsub hopened, hchanges.trans hes⟩
  | unmount slot =>
    obtain ⟨field, rest, m, hfields, hdenotes, hes⟩ :=
      hsettles.atomic.unmounted (verbOf_unmount slot) hok
    rw [fieldsOf, splitn_unmount] at hfields
    cases hfields
    cases hdenotes.unique (parseU8_denotes (parseU8_decimal slot))
    exact hchanges.trans hes
  | status =>
    have hverb : verbOf (line .status) = str "STATUS" := by decide
    exact hchanges.trans (hsettles.atomic.query (.inl hverb))

/-- The reply decides whether the subcommand fails. -/
theorem done_of_succeeds (h : command.Plain) {es es₁ : List (Event (Eff.Res (D := D)))}
    {reply : Text} (hsettles : Settles command.line es₁ reply) (hchanges : changes es = changes es₁)
    (hsub : es₁ ⊆ es) : if command.succeeds reply then command.Done es else changes es = [] := by
  have hslot : verbOf command.line = str "MOUNT" ∨ verbOf command.line = str "UNMOUNT" →
      if !(str "ERROR").isPrefixOf reply then command.Done es else changes es = [] := by
    intro hverb
    rcases hsettles.decided hverb with hok | herror
    · have hnot : (str "ERROR").isPrefixOf reply = false := by
        rw [← Bool.not_eq_true, List.isPrefixOf_iff_prefix]
        exact not_error_of_ok hok
      rw [hnot]
      exact done_of_settles h hsettles hchanges hsub hok
    · rw [List.isPrefixOf_iff_prefix.mpr herror]
      exact hchanges.trans (hsettles.atomic.error herror)
  cases command with
  | mount slot path => exact hslot (.inl (verbOf_mount slot path))
  | unmount slot => exact hslot (.inr (verbOf_unmount slot))
  | status =>
    have hverb : verbOf (line .status) = str "STATUS" := by decide
    exact hchanges.trans (hsettles.atomic.query (.inl hverb))

end Command

/-! ## Section 5: Runs with a client -/

/-- The client is the peer of control session `n`. -/
def Command.party (command : Command) (n : Nat) : Party Caller where
  own     := fun t => t = .control n
  accepts := fun _ => True
  serves  := fun i p r p' => p.serves i r p'
  step    := Caller.Step command

/-- What control session `n` is doing after a run with labels `tr`. -/
def clerkOf (n : Nat) (tr : List (SysLabel D)) : Clerk D :=
  Prog.after clerking .idle (eventsOf (.control n) tr)

/-- The invariant of the runs.  A client that has failed may have sent a part
    of its request, and then the server may have executed that. -/
structure Calling (command : Command) (n : Nat) (tr : List (SysLabel D)) (p : Caller) : Prop where
  sound   : p.Sound command
  handled : p.ended ≠ .failed →
    Handled command.line command.request p (eventsOf (.control n) tr) (clerkOf n tr)

theorem calling_new (command : Command) (n : Nat) :
    Calling (D := D) command n [] Caller.new where
  sound   := Caller.sound_new command
  handled := fun _ => .waiting rfl rfl rfl

/-- A step of the client alone. -/
theorem Calling.step {command : Command} {n : Nat} {tr : List (SysLabel D)} {p p' : Caller}
    (h : Calling command n tr p) (hstep : Caller.Step command p p') : Calling command n tr p' where
  sound   := hstep.sound h.sound
  handled := by
    intro _
    have hfailed : p.ended ≠ .failed := by
      rw [hstep.reading]
      decide
    exact (h.handled hfailed).congr hstep.kept.1 hstep.kept.2

section runs

variable [VDisk D] [UnicodeTables] {command : Command} {n : Nat} {rest : Env D F N}
  {host : Host D F}

/-- The system with the client. -/
abbrev callerSystem (command : Command) (n : Nat) (rest : Env D F N) (host : Host D F) :
    Runtime Tid (Eff D) Eff.Res (World D F (Caller × N)) Exit :=
  system (withHost ((command.party n).beside rest) host)

omit [VDisk D] [UnicodeTables] in
theorem Calling.silent {tr : List (SysLabel D)} {p p' : Caller} (h : Calling command n tr p)
    {live : Tid → Prop} (hstep : (command.party n).Silent live p p') : Calling command n tr p' := by
  cases hstep with
  | waits _ _ hserves => exact Caller.serves_pending hserves ▸ h
  | step hclient => exact h.step hclient
  | other => exact h

/-- What the session does next is allowed. -/
theorem clerking_allows {ok : SysConfig D F (Caller × N) → SysLabel D → Prop}
    {w : World D F (Caller × N)} {c c' : SysConfig D F (Caller × N)} {tr : List (SysLabel D)}
    {e : Eff D} {r : e.Res}
    (hrun : Run (callerSystem command n rest host) ok (Config.initial w) tr c)
    (hstep : Step (callerSystem command n rest host) c (some (.control n, ⟨e, r⟩)) c') :
    (clerkOf n tr).Allows e := by
  have hbody : Prog.Obeys clerking ((callerSystem command n rest host).body (.control n)) .idle
      (fun _ st => st = .idle) := controlOnce_clerking
  exact hrun.allows hbody (fun st hst => hst ▸ hbody) (fun _ _ _ => trivial) hstep

omit [VDisk D] [UnicodeTables] in
theorem clerkOf_snoc (tr : List (SysLabel D)) (e : Eff D) (r : e.Res) :
    clerkOf n (tr ++ [(.control n, ⟨e, r⟩)]) = (clerkOf n tr).next e r := by
  rw [clerkOf, eventsOf_snoc_self, Prog.after_snoc]
  rfl

omit [VDisk D] [UnicodeTables] in
/-- **Step lemma** for the labels. -/
theorem Calling.label (hcommand : command.Plain) {tr : List (SysLabel D)} {p p' : Caller}
    {l : SysLabel D} (h : Calling command n tr p)
    (hallow : ∀ e r, l = (.control n, ⟨e, r⟩) → (clerkOf n tr).Allows e)
    {live : Tid → Prop} (hstep : (command.party n).Labelled live p l p') :
    Calling command n (tr ++ [l]) p' := by
  -- the session talks to the client, does something else, or is not the one that moves
  cases hstep with
  | @served t i r _ _ hown _ hserves =>
    have hown : t = .control n := hown
    subst hown
    have hallow := hallow _ _ rfl
    refine ⟨h.sound.serves hserves, fun hended => ?_⟩
    have hfailed : p.ended ≠ .failed := Caller.serves_ended hserves ▸ hended
    have hhandled := h.handled hfailed
    have htrim := Command.trim_line hcommand
    have hblank : trim command.line ≠ [] := by
      rw [htrim]
      exact command.line_ne_nil
    rw [eventsOf_snoc_self, clerkOf_snoc]
    rw [← htrim] at hhandled ⊢
    exact hhandled.socket h.sound hfailed command.request_eq (Command.line_lf hcommand) hblank
      hallow hserves
  | @aside t e r _ hown _ hother =>
    have hown : t = .control n := hown
    subst hown
    refine ⟨h.sound, fun hended => ?_⟩
    rw [eventsOf_snoc_self, clerkOf_snoc]
    exact (h.handled hended).aside hother (hallow e r rfl) r
  | @other t e r _ hown =>
    have hevents : eventsOf (.control n) (tr ++ [(t, ⟨e, r⟩)]) = eventsOf (.control n) tr :=
      eventsOf_snoc_ne _ _ _ _ hown
    refine ⟨h.sound, fun hended => ?_⟩
    rw [clerkOf, hevents]
    exact h.handled hended

/-- **Run lemma.** -/
theorem calling_run (hcommand : command.Plain)
    {ok : SysConfig D F (Caller × N) → SysLabel D → Prop} {s : Server D} {f : F} {net : N}
    {c : SysConfig D F (Caller × N)} {tr : List (SysLabel D)}
    (hrun : Run (callerSystem command n rest host) ok
      (Config.initial (World.initial s f (Caller.new, net))) tr c) :
    Calling command n tr c.world.net.1 := by
  have hnet : (withHost ((command.party n).beside rest) host).net =
      ((command.party n).beside rest).net := rfl
  refine Party.run_along (J := Calling command n) hnet rfl ?_ ?_ ?_ hrun
  · exact calling_new command n
  · exact fun tr c p' _ h hstep => h.silent hstep
  · intro tr c l c' hrun hstep h hlabel
    refine h.label hcommand ?_ hlabel
    rintro e r rfl
    exact clerking_allows hrun hstep

/-! ## Section 6: What is printed -/

/-- What the steps `es` of a session have done, when its client has printed
    its output.  A reply may be cut off, but nothing else is ever printed. -/
structure Settled (command : Command) (es : List (Event (Eff.Res (D := D)))) (p : Caller) :
    Prop where
  ok    : p.ended = .terminal ∨ p.ended = .eof → str "OK" <+: p.out → command.Done es
  error : p.ended = .terminal ∨ p.ended = .eof → str "ERROR" <+: p.out → changes es = []
  /-- After a terminal line the reply is whole, and the exit status tells
      whether the table was changed. -/
  whole : p.ended = .terminal →
    (∃ r, (⟨.io (.writeAll (encode p.out)), r⟩ : Event (Eff.Res (D := D))) ∈ es) ∧
      if command.succeeds p.out then command.Done es else changes es = []

omit [VDisk D] [UnicodeTables] in
/-- What has been printed is the beginning of a reply. -/
theorem Calling.printed {tr : List (SysLabel D)} {p : Caller} (h : Calling command n tr p)
    (hended : p.ended ≠ .failed) (hout : p.out ≠ []) : ∃ es₁ reply r,
      changes (eventsOf (.control n) tr) = changes es₁ ∧ es₁ ⊆ eventsOf (.control n) tr ∧
      Settles command.line es₁ reply ∧ p.out <+: reply ∧
      (⟨.io (.writeAll (encode reply)), r⟩ : Event (Eff.Res (D := D))) ∈
        eventsOf (.control n) tr := by
  have hnone : p.sent ≠ [] := by
    intro hsent
    have hprefix := h.sound.out
    rw [hsent, ← encode_nil] at hprefix
    exact hout (List.prefix_nil.mp (prefix_of_encode hprefix))
  have hhandled := h.handled hended
  generalize clerkOf n tr = st at hhandled
  cases hhandled with
  | waiting _ hsent _ => exact absurd hsent hnone
  | working es₁ _ hsent _ _ => exact absurd hsent hnone
  | replied es₁ reply r _ hchanges hsub hsettles hsent hwritten =>
    exact ⟨es₁, reply, r, hchanges, hsub, hsettles, prefix_of_encode (h.sound.out.trans hsent),
      hwritten⟩

omit [VDisk D] [UnicodeTables] in
/-- The client does not stop before the end of a reply. -/
theorem whole_of_prefix {out reply : Text} (hout : SelfDelimiting out)
    (hreply : SelfDelimiting reply) (h : out <+: reply) : out = reply := by
  obtain ⟨more, hmore⟩ := h
  have hwhole := hreply.readWhole.returned []
  rw [List.append_nil, ← hmore, hout.readWhole.returned more] at hwhole
  exact hwhole.trans hmore

/-- **What a command prints is what has happened.**  In every run from an
    empty server, with any other sessions and clients: if OK is printed, the
    session has changed the table once, as it was asked to; if an error is
    printed, it has not; and a reply that was not cut off is printed as a
    whole. -/
theorem command_settled (command : Command) (hcommand : command.Plain) (n : Nat)
    (rest : Env D F N) {host : Host D F} (hhost : Named host) (f : F) (net : N)
    {tr : List (SysLabel D)} {c : SysConfig D F (Caller × N)}
    (hrun : Run (callerSystem command n rest host) readsLines
      (Config.initial (World.initial (Server.new D) f (Caller.new, net))) tr c) :
    Settled command (eventsOf (.control n) tr) c.world.net.1 := by
  have hcalling := calling_run hcommand hrun
  have hprinted : ∀ {p : Caller}, p.ended = .terminal ∨ p.ended = .eof → p.ended ≠ .failed := by
    rintro p (h | h) <;> rw [h] <;> decide
  have hword : ∀ {word : Text}, word ≠ [] → word <+: c.world.net.1.out →
      c.world.net.1.out ≠ [] := by
    intro word hne hword hnil
    rw [hnil] at hword
    exact hne (List.prefix_nil.mp hword)
  refine ⟨fun hended hok => ?_, fun hended herror => ?_, fun hended => ?_⟩
  · obtain ⟨es₁, reply, r, hchanges, hsub, hsettles, hout, -⟩ :=
      hcalling.printed (hprinted hended) (hword (by decide) hok)
    exact Command.done_of_settles hcommand hsettles hchanges hsub (hok.trans hout)
  · obtain ⟨es₁, reply, r, hchanges, hsub, hsettles, hout, -⟩ :=
      hcalling.printed (hprinted hended) (hword (by decide) herror)
    exact hchanges.trans (hsettles.atomic.error (herror.trans hout))
  · have hlast := hcalling.sound.last hended
    have hne : c.world.net.1.out ≠ [] := by
      obtain ⟨lines, last, htext, -⟩ := hlast
      rw [htext, replyText]
      simp
    obtain ⟨es₁, reply, r, hchanges, hsub, hsettles, hout, hwritten⟩ :=
      hcalling.printed (hprinted (.inl hended)) hne
    -- replies end where the client thinks
    obtain ⟨reply', hbytes, hreply⟩ :=
      (speaking_run _ hhost f (Caller.new, net) hrun).2 n _ r (mem_eventsOf.mp hwritten)
    rw [← encode_inj hbytes] at hreply
    have hsame := whole_of_prefix hlast hreply hout
    rw [hsame]
    exact ⟨⟨r, hwritten⟩, Command.done_of_succeeds hcommand hsettles hchanges hsub⟩

end runs

/-! ## Section 7: One mount -/

/-- The socket, when all goes well. -/
def Caller.answer : (i : Io) → Caller → Poll i.Res × Caller
  | .nextLine, p =>
    if '\n' ∈ p.unread then
      (.ready (.ok (some (stripCr (p.unread.takeWhile fun c => c ≠ '\n')))),
        { p with taken := p.taken + ((p.unread.takeWhile fun c => c ≠ '\n').length + 1) })
    else (.pending, p)
  | .writeAll bs, p => (.ready (.ok ()), { p with sent := p.sent ++ bs })
  | .readExact _, p => (.pending, p)
  | .read _, p => (.pending, p)
  | .nextCall, p => (.pending, p)

theorem Caller.answer_serves (i : Io) (p : Caller) : p.serves i (p.answer i).1 (p.answer i).2 := by
  cases i with
  | nextLine =>
    rw [Caller.answer]
    split
    · rename_i hlf
      obtain ⟨line, rest, hunread, hline⟩ := List.eq_append_cons_of_mem hlf
      have htake : p.unread.takeWhile (fun c => c ≠ '\n') = line := by
        rw [hunread]
        exact takeWhile_line hline rest
      rw [htake]
      exact .inr (.inl ⟨line, rest, hunread, hline, rfl, rfl⟩)
    · exact .inl ⟨rfl, rfl⟩
  | writeAll bs => exact .inr (.inl ⟨rfl, rfl⟩)
  | readExact n => exact ⟨rfl, rfl⟩
  | read n => exact ⟨rfl, rfl⟩
  | nextCall => exact ⟨rfl, rfl⟩

/-- The answers to the session of the client.  No other session has a peer. -/
def besideCaller : Answers DskFile Files (Caller × Unit) where
  net := fun t i x =>
    if t = .control 0 then ((x.1.answer i).1, ((x.1.answer i).2, x.2)) else (.pending, x)
  sys := stillHost

/-- Peers that never answer. -/
def silentPeers : Env DskFile Files Unit where
  net := fun _ _ _ r _ => r = .pending
  sys := fun _ _ _ r _ => r = .pending
  connect := fun _ _ => True
  netStep := fun _ _ => False

def mountOne : Command := .mount 0 (str "d")

abbrev mountSystem : Runtime Tid (Eff DskFile) Eff.Res (World DskFile Files (Caller × Unit)) Exit :=
  @callerSystem DskFile Files Unit _ asciiTables mountOne 0 silentPeers stillHost

abbrev mountEnv : Env DskFile Files (Caller × Unit) :=
  withHost ((mountOne.party 0).beside silentPeers) stillHost

theorem besideCaller_net (t : Tid) (i : Io) (x : Caller × Unit) :
    mountEnv.net t i x (besideCaller.net t i x).1 (besideCaller.net t i x).2 := by
  by_cases ht : t = .control 0
  · simp only [besideCaller, if_pos ht]
    exact .inl ⟨ht, x.1.answer_serves i, rfl⟩
  · simp only [besideCaller, if_neg ht]
    exact .inr ⟨ht, rfl, rfl⟩

theorem start_mount (t : Tid) (w : World DskFile Files (Caller × Unit))
    (h : Answers.start t w = true) : mayStart mountEnv t w := by
  have hconnect : mountEnv.connect t w.net := by
    by_cases hown : (mountOne.party 0).own t
    · exact .inl ⟨hown, trivial⟩
    · exact .inr ⟨hown, trivial⟩
  exact Answers.mayStart_of_start hconnect h

/-- An empty file with the name `d`. -/
def oneFile : Files where
  paths  := fun path => if path = str "d" then some 0 else none
  bytes  := fun _ => []
  opened := 0
  inode  := fun _ => 0
  cursor := fun _ => 0

def mountStart : SysConfig DskFile Files (Caller × Unit) :=
  Config.initial (World.initial (Server.new DskFile) oneFile (Caller.new, ()))

/-- The client after it has sent its request. -/
def mountAsked : Caller := { Caller.new with asked := mountOne.request }

def mountTurns : List Tid := List.replicate 8 (.control 0)

def afterMount : SysConfig DskFile Files (Caller × Unit) :=
  schedule mountSystem besideCaller.poll Answers.start (withNet mountStart (mountAsked, ()))
    mountTurns

def mountLabels : List (SysLabel DskFile) :=
  scheduleLabels mountSystem besideCaller.poll Answers.start (withNet mountStart (mountAsked, ()))
    mountTurns

def mountPrinted : Text := str "OK mounted slot 0 sectors=0 path=d"

/-- The client after it has printed the reply. -/
def mountDone : Caller :=
  { afterMount.world.net.1 with out := mountPrinted ++ ['\n'], ended := .terminal }

set_option maxRecDepth 100000 in
theorem afterMount_sent : afterMount.world.net.1.sent = encode (mountPrinted ++ ['\n']) := rfl

set_option maxRecDepth 100000 in
theorem mount_run : Run mountSystem anyStep mountStart mountLabels
    (withNet afterMount (mountDone, ())) := by
  have hask : Step mountSystem mountStart none (withNet mountStart (mountAsked, ())) :=
    ambient_step (.inl ⟨.write _ mountOne.request rfl List.prefix_rfl, rfl⟩)
  have hsession : Run mountSystem anyStep _ mountLabels afterMount :=
    run_schedule (besideCaller.poll_spec_in besideCaller_net fun _ _ _ => .inr ⟨rfl, rfl⟩)
      start_mount (withNet mountStart (mountAsked, ())) mountTurns (scheduleMeets_any _ _)
  have hprefix : encode ([] ++ (mountPrinted ++ ['\n'])) <+: afterMount.world.net.1.sent := by
    rw [List.nil_append, afterMount_sent]
  have hprint : Step mountSystem afterMount none (withNet afterMount (mountDone, ())) :=
    ambient_step (.inl ⟨.line _ mountPrinted rfl rfl (by decide) hprefix, rfl⟩)
  exact (((Run.refl _).silent hask).trans hsession).silent hprint

set_option maxRecDepth 100000 in
theorem mountLabels_lines :
    mountLabels.all (fun l => (lineRead l).all fun line => '\n' ∉ line) = true := rfl

/-- `d` is mounted, and `dw mount` says so. -/
theorem command_settled_mount : ∃ tr c,
    Run mountSystem readsLines mountStart tr c ∧ c.world.net.1 = mountDone ∧
    str "OK" <+: mountDone.out ∧ mountOne.Done (eventsOf (.control 0) tr) := by
  have hrun : Run mountSystem readsLines mountStart mountLabels
      (withNet afterMount (mountDone, ())) := Run.readsLines mount_run mountLabels_lines
  have hok : str "OK" <+: mountDone.out := by
    show str "OK" <+: mountPrinted ++ ['\n']
    decide
  have hplain : mountOne.Plain := by
    refine ⟨by decide, by decide, fun c hc => ?_⟩
    cases hc
    rfl
  have hsettled := @command_settled DskFile Files Unit _ asciiTables mountOne hplain 0
    silentPeers stillHost (fileHost_named answer_plain _ _) oneFile () _ _ hrun
  exact ⟨_, _, hrun, rfl, hok, hsettled.ok (.inl rfl) hok⟩

end Cli

end DriveWire
