import DriveWire.Server.Framing

/-! # Control Commands Are Atomic

    Whatever the text of a control line, the command takes at most one step
    that changes data of the server.  The reply tells whether it has taken
    it, and for which slot. -/

namespace DriveWire

open Async Server Solo

variable {D F : Type}

/-! ## Section 1: Numbers -/

/-- The number that decimal digits stand for. -/
def digitsValue (digits : Text) : Nat :=
  digits.foldl (fun acc c => acc * 10 + (c.toNat - 48)) 0

/-- The text denotes the number `n`: digits, perhaps after a plus sign. -/
def Denotes (s : Text) (n : UInt8) : Prop :=
  ∃ digits, (s = digits ∨ s = '+' :: digits) ∧ digits ≠ [] ∧
    (∀ c ∈ digits, c.isDigit = true) ∧ digitsValue digits = n.toNat

theorem foldlM_parseDigit {digits : Text} {acc n : Nat}
    (h : digits.foldlM parseDigit acc = some n) :
    (∀ c ∈ digits, c.isDigit = true) ∧
      digits.foldl (fun acc c => acc * 10 + (c.toNat - 48)) acc = n ∧
      (digits ≠ [] → n < 256) := by
  induction digits generalizing acc with
  | nil =>
    cases (h : some acc = some n)
    simp
  | cons c digits ih =>
    rw [List.foldlM_cons] at h
    obtain ⟨acc', hdigit, hrest⟩ := Option.bind_eq_some_iff.mp h
    rw [parseDigit] at hdigit
    split at hdigit
    · rename_i hc
      cases hdigit
      obtain ⟨hall, hfold, hlt⟩ := ih hrest
      refine ⟨fun c' hc' => ?_, hfold, fun _ => ?_⟩
      · rcases List.mem_cons.mp hc' with rfl | hmem
        · exact hc.1
        · exact hall c' hmem
      · cases digits with
        | nil =>
          cases (hrest : some _ = some n)
          exact hc.2
        | cons c' digits => exact hlt (List.cons_ne_nil _ _)
    · cases hdigit

theorem unsignedDigits_eq (s : Text) : s = unsignedDigits s ∨ s = '+' :: unsignedDigits s := by
  unfold unsignedDigits
  split
  · exact .inr rfl
  · exact .inl rfl

/-- Only a number from 0 to 255 is parsed as a slot. -/
theorem parseU8_denotes {s : Text} {n : UInt8} (h : parseU8 s = some n) : Denotes s n := by
  unfold parseU8 at h
  split at h
  · cases h
  · rename_i digits hne
    obtain ⟨m, hm, rfl⟩ := Option.map_eq_some_iff.mp h
    obtain ⟨hall, hfold, hlt⟩ := foldlM_parseDigit hm
    refine ⟨unsignedDigits s, unsignedDigits_eq s, hne, hall, ?_⟩
    have hm256 := hlt hne
    rw [digitsValue, hfold, UInt8.toNat_ofNat', Nat.mod_eq_of_lt hm256]

/-! ## Section 2: What a command changes -/

/-- The scope of a guard, if it changes data. -/
def Op.change : Op D → Option (Op D)
  | .driveGet _ | .driveRows | .inboxLens | .outboxLens | .openClone => none
  | o => some o

/-- The effect, if it is a scope that changes data. -/
def Eff.change : Eff D → Option (Op D)
  | .op o => o.change
  | _ => none

/-- The steps among some events that change data of the server. -/
def changes (es : List (Event (Eff.Res (D := D)))) : List (Op D) :=
  es.filterMap fun ev => ev.1.change

/-- The data after changes that follow one another. -/
def applyAll (ops : List (Op D)) (s : Server D) : Server D :=
  ops.foldl (fun s o => (o.run s).2) s

/-- The verb of a control line. -/
def verbOf (line : Text) : Text := toAsciiUppercase ((splitn isWhitespace 3 line).headD [])

/-- The fields after the verb. -/
def fieldsOf (line : Text) : List Text := (splitn isWhitespace 3 line).tail

/-- What the reply to a control line says about the steps of the command.  A
    step is the scope of a guard, so no other task sees a part of it. -/
structure Atomic (line : Text) (es : List (Event (Eff.Res (D := D)))) (reply : Text) : Prop where
  /-- A command that fails has changed nothing. -/
  error : str "ERROR" <+: reply → changes es = []
  /-- STATUS and QUIT change nothing. -/
  query : verbOf line = str "STATUS" ∨ verbOf line = str "QUIT" → changes es = []
  /-- MOUNT maps the slot to the image it has opened. -/
  mounted : verbOf line = str "MOUNT" → str "OK" <+: reply →
    ∃ slot path rest n d, fieldsOf line = slot :: path :: rest ∧ Denotes slot n ∧
      (⟨.sys (.diskOpen path false), .ok d⟩ : Event (Eff.Res (D := D))) ∈ es ∧
      changes es = [.driveInsert n d]
  /-- UNMOUNT removes the slot. -/
  unmounted : verbOf line = str "UNMOUNT" → str "OK" <+: reply →
    ∃ slot rest n, fieldsOf line = slot :: rest ∧ Denotes slot n ∧ changes es = [.driveRemove n]
  /-- There are no other commands. -/
  other : verbOf line ∉ [str "MOUNT", str "UNMOUNT", str "STATUS", str "QUIT"] →
    str "ERROR" <+: reply

/-! ## Section 3: The commands -/

theorem not_error_of_ok {reply : Text} (h : str "OK" <+: reply) : ¬ str "ERROR" <+: reply := by
  intro herror
  obtain ⟨rest, rfl⟩ := h
  obtain ⟨rest', hrest⟩ := herror
  cases hrest

/-- A command that changes nothing is atomic if its reply is an error. -/
theorem atomic_error {line reply : Text} {es : List (Event (Eff.Res (D := D)))}
    (hreply : str "ERROR" <+: reply) (hes : changes es = []) : Atomic line es reply where
  error     := fun _ => hes
  query     := fun _ => hes
  mounted   := fun _ hok => absurd hreply (not_error_of_ok hok)
  unmounted := fun _ hok => absurd hreply (not_error_of_ok hok)
  other     := fun _ => hreply

/-- A query is atomic if it changes nothing. -/
theorem atomic_query {line reply : Text} {es : List (Event (Eff.Res (D := D)))}
    (hverb : verbOf line = str "STATUS" ∨ verbOf line = str "QUIT") (hes : changes es = []) :
    Atomic line es reply where
  error     := fun _ => hes
  query     := fun _ => hes
  mounted   := fun hmount => by
    rw [hmount] at hverb
    exact absurd hverb (by decide)
  unmounted := fun hunmount => by
    rw [hunmount] at hverb
    exact absurd hverb (by decide)
  other     := fun hother => by
    rcases hverb with h | h <;> rw [h] at hother <;> exact absurd (by decide) hother

section commands

variable [UnicodeTables]

theorem badSlot_error (slot : Text) : str "ERROR" <+: badSlot slot :=
  ⟨str " slot must be a u8 (got " ++ debugStr slot ++ str ")\n", rfl⟩

variable [VDisk D]

theorem controlMount_atomic {line : Text} (hverb : verbOf line = str "MOUNT") :
    (controlMount (D := D) (fieldsOf line)).Obeys Prog.history []
      (fun reply es => Atomic line es reply) := by
  generalize hfields : fieldsOf line = fields
  unfold controlMount
  split
  · rename_i slot path rest
    split
    · rename_i n hn
      refine ⟨trivial, fun r _ => ?_⟩
      cases r with
      | ok d =>
        -- the table is changed in the scope of its guard
        refine ⟨trivial, fun _ _ => ⟨trivial, fun _ _ => ⟨trivial, fun _ _ => ?_⟩⟩⟩
        refine ⟨fun herror => ?_, fun hquery => ?_, fun _ _ => ?_, fun hunmount => ?_, ?_⟩
        · obtain ⟨rest, hrest⟩ := herror
          cases hrest
        · rw [hverb] at hquery
          exact absurd hquery (by decide)
        · exact ⟨slot, path, rest, n, d, hfields, parseU8_denotes hn, List.mem_cons_self, rfl⟩
        · rw [hverb] at hunmount
          exact absurd hunmount (by decide)
        · intro hother
          rw [hverb] at hother
          exact absurd (by decide) hother
      | error e =>
        exact atomic_error ⟨str " mount failed: " ++ e.display ++ str "\n", rfl⟩ rfl
    · exact atomic_error (badSlot_error _) rfl
  · exact atomic_error ⟨str " usage: MOUNT <slot> <path>\n", rfl⟩ rfl

omit [VDisk D] in
theorem controlUnmount_atomic {line : Text} (hverb : verbOf line = str "UNMOUNT") :
    (controlUnmount (D := D) (fieldsOf line)).Obeys Prog.history []
      (fun reply es => Atomic line es reply) := by
  generalize hfields : fieldsOf line = fields
  unfold controlUnmount
  split
  · rename_i slot rest
    split
    · rename_i n hn
      refine ⟨trivial, fun _ _ => ⟨trivial, fun _ _ => ⟨trivial, fun _ _ => ?_⟩⟩⟩
      refine ⟨fun herror => ?_, fun hquery => ?_, fun hmount => ?_, fun _ _ => ?_, ?_⟩
      · obtain ⟨rest, hrest⟩ := herror
        cases hrest
      · rw [hverb] at hquery
        exact absurd hquery (by decide)
      · rw [hverb] at hmount
        exact absurd hmount (by decide)
      · exact ⟨slot, rest, n, hfields, parseU8_denotes hn, rfl⟩
      · intro hother
        rw [hverb] at hother
        exact absurd (by decide) hother
    · exact atomic_error (badSlot_error _) rfl
  · exact atomic_error ⟨str " usage: UNMOUNT <slot>\n", rfl⟩ rfl

omit [UnicodeTables] in
theorem controlStatus_atomic {line : Text} (hverb : verbOf line = str "STATUS") :
    (controlStatus (D := D)).Obeys Prog.history [] (fun reply es => Atomic line es reply) := by
  -- the drives, the open flags, and both queues under their two locks
  refine ⟨trivial, fun _ _ => ⟨trivial, fun _ _ => ⟨trivial, fun _ _ => ?_⟩⟩⟩
  refine ⟨trivial, fun _ _ => ⟨trivial, fun _ _ => ⟨trivial, fun _ _ => ?_⟩⟩⟩
  refine ⟨trivial, fun _ _ => ⟨trivial, fun _ _ => ⟨trivial, fun _ _ => ?_⟩⟩⟩
  refine ⟨trivial, fun _ _ => ⟨trivial, fun _ _ => ⟨trivial, fun _ _ => ?_⟩⟩⟩
  exact atomic_query (.inl hverb) rfl

theorem handleControlCommand_atomic (line : Text) :
    (handleControlCommand (D := D) line).Obeys Prog.history []
      (fun reply es => Atomic line es reply) := by
  unfold handleControlCommand
  split
  · exact atomic_error ⟨str " unknown verb: \n", rfl⟩ rfl
  · rename_i first fields hsplit
    have hverb : verbOf line = toAsciiUppercase first := by
      rw [verbOf, hsplit]
      rfl
    have hfields : fieldsOf line = fields := by
      rw [fieldsOf, hsplit]
      rfl
    rw [← hfields, ← hverb]
    dsimp only
    split
    · exact controlMount_atomic ‹_›
    split
    · exact controlUnmount_atomic ‹_›
    split
    · exact controlStatus_atomic ‹_›
    split
    · exact atomic_query (.inr ‹_›) rfl
    · exact atomic_error ⟨str " unknown verb: " ++ verbOf line ++ str "\n", rfl⟩ rfl

end commands

/-! ## Section 4: A command on its own -/

theorem change_cases (e : Eff D) (s : Server D) :
    (e.change = none ∧ e.serverAfter s = s) ∨
      ∃ o, e.change = some o ∧ e.serverAfter s = (o.run s).2 := by
  cases e with
  | op o =>
    cases o with
    | driveGet | driveRows | inboxLens | outboxLens | openClone => exact .inl ⟨rfl, rfl⟩
    | _ => exact .inr ⟨_, rfl, rfl⟩
  | _ => exact .inl ⟨rfl, rfl⟩

/-- The data after some events, if they follow one another. -/
theorem applyAll_changes_cons (e : Eff D) (r : e.Res) (es : List (Event (Eff.Res (D := D))))
    (s : Server D) :
    applyAll (changes (⟨e, r⟩ :: es)) s = applyAll (changes es) (e.serverAfter s) := by
  rcases change_cases e s with ⟨hchange, hs⟩ | ⟨o, hchange, hs⟩
  · rw [hs, changes, List.filterMap_cons_none (by exact hchange)]
    rfl
  · rw [hs, changes, List.filterMap_cons_some (by exact hchange)]
    rfl

variable {host : Host D F} {eof : Bool} {t : Tid}

theorem answer_server {e : Eff D} {w w' : World D F Wire} {r : e.Res}
    (h : answer host eof t e w = some (r, w')) : w'.server = e.serverAfter w.server := by
  cases e with
  | io i =>
    obtain ⟨x, _, heq⟩ := Option.map_eq_some_iff.mp h
    cases heq
    rfl
  | lock l m =>
    by_cases hl : w.holders l = []
    · rw [answer, if_pos hl] at h
      cases h
      rfl
    · rw [answer, if_neg hl] at h
      cases h
  | sys | unlock | op | notifyOne =>
    cases h
    rfl
  | notified | never | spawn | select => cases h

/-- An evaluation is a path through the program, and changes what the events
    on it change. -/
theorem eval_walk {α : Type} {p : Code D α} {w w' : World D F Wire} {a : α}
    (h : p.eval (answer host eof t) w = some (a, w')) :
    ∃ es, Prog.Walk p es (.ret a) ∧ w'.server = applyAll (changes es) w.server := by
  induction p generalizing w with
  | ret b =>
    cases (h : some (b, w) = some (a, w'))
    exact ⟨[], .refl _, rfl⟩
  | eff e k ih =>
    rw [Prog.eval_eff] at h
    obtain ⟨⟨r, w₁⟩, hr, hk⟩ := Option.bind_eq_some_iff.mp h
    obtain ⟨es, hwalk, hserver⟩ := ih r hk
    refine ⟨⟨e, r⟩ :: es, hwalk.cons r, ?_⟩
    rw [hserver, answer_server hr, applyAll_changes_cons]

section commands

variable [VDisk D] [UnicodeTables]

omit [UnicodeTables] in
theorem quiet_mountDsk (slot : UInt8) (path : Text) (readOnly : Bool) :
    Quiet host t (mountDsk slot path readOnly : Code D _) := by
  apply (quiet_sys _).bind
  intro r
  cases r with
  | ok d => exact (quiet_guarded _ _).bind fun _ => quiet_return _
  | error e => exact quiet_return _

omit [UnicodeTables] in
theorem quiet_controlStatus : Quiet host t (controlStatus (D := D)) := by
  apply ((quiet_guarded _ _).bind fun _ => quiet_return _).bind
  intro drives
  refine Quiet.bind (fun s wire => ⟨(List.finRange vserialChannels).map fun i =>
    (i, s.server.vserialOpen i, (s.server.vserialInbox i).length,
      (s.server.vserialOutbox i).length), s, ?_⟩) fun _ => quiet_return _
  rw [vserialSummary, Prog.eval_bind, eval_guarded]
  simp [withLock, await, answer, State.world, World.acquire, World.release, Op.run]
  -- both guards are dropped again
  funext l
  cases l <;> rfl

variable (host t) in
/-- A command never waits when no other task uses the server. -/
theorem quiet_handleControlCommand (line : Text) :
    Quiet host t (handleControlCommand (D := D) line) := by
  unfold handleControlCommand
  split
  · exact quiet_return _
  · dsimp only
    split
    · unfold controlMount
      split
      · split
        · apply (quiet_mountDsk _ _ _).bind
          intro r
          cases r <;> exact quiet_return _
        · exact quiet_return _
      · exact quiet_return _
    split
    · unfold controlUnmount
      split
      · split
        · exact (quiet_guarded _ _).bind fun _ => quiet_return _
        · exact quiet_return _
      · exact quiet_return _
    split
    · exact quiet_controlStatus
    split <;> exact quiet_return _

end commands

/-! ## Section 5: What the reply means -/

/-- What the reply to a control line says about the data before and after
    the command.  `opened` are the images that were opened. -/
structure Outcome (line : Text) (opened : Text → D → Prop) (s s' : Server D) (reply : Text) :
    Prop where
  error : str "ERROR" <+: reply → s' = s
  query : verbOf line = str "STATUS" ∨ verbOf line = str "QUIT" → s' = s
  mounted : verbOf line = str "MOUNT" → str "OK" <+: reply →
    ∃ slot path rest n d, fieldsOf line = slot :: path :: rest ∧ Denotes slot n ∧
      opened path d ∧ s' = { s with drives := Function.update s.drives n (some d) }
  unmounted : verbOf line = str "UNMOUNT" → str "OK" <+: reply →
    ∃ slot rest n, fieldsOf line = slot :: rest ∧ Denotes slot n ∧
      s' = { s with drives := Function.update s.drives n none }
  other : verbOf line ∉ [str "MOUNT", str "UNMOUNT", str "STATUS", str "QUIT"] →
    str "ERROR" <+: reply

/-- The image was opened in one of the events. -/
def OpenedIn (es : List (Event (Eff.Res (D := D)))) (path : Text) (d : D) : Prop :=
  (⟨.sys (.diskOpen path false), .ok d⟩ : Event (Eff.Res (D := D))) ∈ es

theorem Atomic.outcome {line reply : Text} {es : List (Event (Eff.Res (D := D)))}
    (h : Atomic line es reply) (s : Server D) :
    Outcome line (OpenedIn es) s (applyAll (changes es) s) reply := by
  refine ⟨fun herror => ?_, fun hquery => ?_, fun hverb hok => ?_, fun hverb hok => ?_, h.other⟩
  · rw [h.error herror]
    rfl
  · rw [h.query hquery]
    rfl
  · obtain ⟨slot, path, rest, n, d, hfields, hdenotes, hopened, hes⟩ := h.mounted hverb hok
    refine ⟨slot, path, rest, n, d, hfields, hdenotes, hopened, ?_⟩
    rw [hes]
    rfl
  · obtain ⟨slot, rest, n, hfields, hdenotes, hes⟩ := h.unmounted hverb hok
    refine ⟨slot, rest, n, hfields, hdenotes, ?_⟩
    rw [hes]
    rfl

/-- **Control commands are atomic.** For every line, the command takes at
    most the one changing step that its reply tells, whatever other tasks do
    between its steps.  On its own it replies in every state of the server,
    and the data changes as the reply tells. -/
theorem control_atomic [VDisk D] [UnicodeTables] (line : Text) :
    (∀ (es : List (Event (Eff.Res (D := D)))) reply,
      Prog.Walk (handleControlCommand line) es (.ret reply) → Atomic line es reply) ∧
    ∀ (host : Host D F) (t : Tid) (s : State D F) (wire : Wire), ∃ es reply s',
      Prog.Walk (handleControlCommand line) es (.ret reply) ∧
        (handleControlCommand line).eval (answer host false t) (s.world wire) =
          some (reply, State.world s' wire) ∧
        Outcome line (OpenedIn es) s.server s'.server reply := by
  have hatomic : ∀ (es : List (Event (Eff.Res (D := D)))) reply,
      Prog.Walk (handleControlCommand line) es (.ret reply) → Atomic line es reply :=
    fun es reply hwalk => hwalk.recorded (handleControlCommand_atomic line)
  refine ⟨hatomic, fun host t s wire => ?_⟩
  obtain ⟨reply, s', heval⟩ := quiet_handleControlCommand host t line s wire
  obtain ⟨es, hwalk, hserver⟩ := eval_walk heval
  refine ⟨es, reply, s', hwalk, heval, ?_⟩
  have hs' : s'.server = applyAll (changes es) s.server := hserver
  rw [hs']
  exact (hatomic es reply hwalk).outcome s.server

end DriveWire
