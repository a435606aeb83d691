import DriveWire.Cli.ControlRequest
import DriveWire.Disk.DskHost
import DriveWire.Server.CutOff
import DriveWire.Server.Eject
import DriveWire.Server.Sessions

/-! # Control Replies

    Replies are lines of text, and paths, verbs and slots are put into them
    unquoted.  None of these has a line feed in it, because a command is one
    line, so the client finds the end of every reply.  The rows of STATUS can
    be read back. -/

namespace DriveWire

open Async Server Solo Cli

variable {D F N : Type}

/-! ## Section 1: Text without line feeds -/

/-- The text is not broken into lines. -/
def OneLine (s : Text) : Prop := '\n' ∉ s

instance (s : Text) : Decidable (OneLine s) := inferInstanceAs (Decidable ('\n' ∉ s))

theorem OneLine.append {s t : Text} (hs : OneLine s) (ht : OneLine t) : OneLine (s ++ t) := by
  intro hmem
  exact (List.mem_append.mp hmem).elim hs ht

theorem OneLine.cons {c : Char} {s : Text} (hc : c ≠ '\n') (hs : OneLine s) : OneLine (c :: s) := by
  intro hmem
  exact (List.mem_cons.mp hmem).elim (fun h => hc h.symm) hs

theorem oneLine_decimal (n : Nat) : OneLine (decimal n) :=
  fun h => (decimal_plain n _ h).2 rfl

theorem oneLine_hex (n : Nat) : OneLine (Nat.toDigits 16 n) := by
  have hdigit : ∀ d : Fin 16, Nat.digitChar d.val ≠ '\n' := by decide
  induction n using Nat.strong_induction_on with
  | _ n ih =>
    rw [OneLine, Nat.toDigits_eq_if (by decide)]
    split
    · rename_i hlt
      rw [List.mem_singleton]
      exact (hdigit ⟨n, hlt⟩).symm
    · rename_i hge
      rw [List.mem_append, List.mem_singleton, not_or]
      exact ⟨ih (n / 16) (by omega), (hdigit ⟨n % 16, Nat.mod_lt _ (by decide)⟩).symm⟩

theorem oneLine_debugStr [UnicodeTables] (s : Text) : OneLine (debugStr s) := by
  have hescape : ∀ c, OneLine (escapeDebug c) := by
    intro c
    unfold escapeDebug
    repeat' split
    all_goals try decide
    · rename_i hnl _ _ _
      intro hmem
      exact hnl (List.mem_singleton.mp hmem).symm
    · apply OneLine.append
      · exact OneLine.append (by decide) (oneLine_hex _)
      · decide
  intro hmem
  rw [debugStr, List.mem_append, List.mem_append] at hmem
  rcases hmem with (hmem | hmem) | hmem
  · exact absurd hmem (by decide)
  · obtain ⟨c, -, hc⟩ := List.mem_flatMap.mp hmem
    exact hescape c hc
  · exact absurd hmem (by decide)

theorem toUpper_lf {c : Char} (h : c.toUpper = '\n') : c = '\n' := by
  unfold Char.toUpper at h
  split at h
  · -- a letter does not become a line feed
    rename_i hletter
    have hnat := congrArg (fun c : Char => c.val.toNat) h
    have hlow : 97 ≤ c.val.toNat := hletter.1
    have hhigh : c.val.toNat ≤ 122 := hletter.2
    have hshift : ('A'.val - 'a'.val).toNat = 4294967264 := by decide
    have hlf : ('\n'.val).toNat = 10 := by decide
    simp only [UInt32.toNat_add, hshift, hlf] at hnat
    omega
  · exact h

theorem oneLine_toAsciiUppercase {s : Text} (h : OneLine s) : OneLine (toAsciiUppercase s) := by
  intro hmem
  obtain ⟨c, hmemc, hc⟩ := List.mem_map.mp hmem
  rw [toUpper_lf hc] at hmemc
  exact h hmemc

/-- The parts of a text have no characters of their own. -/
theorem mem_of_mem_splitn {p : Char → Bool} {n : Nat} {s part : Text} (h : part ∈ splitn p n s)
    {c : Char} (hc : c ∈ part) : c ∈ s := by
  fun_induction splitn p n s with
  | case1 => cases h
  | case2 s =>
    rw [List.mem_singleton] at h
    rwa [← h]
  | case3 n s hdrop =>
    rw [List.mem_singleton] at h
    rwa [← h]
  | case4 n s sep rest hdrop ih =>
    rcases List.mem_cons.mp h with rfl | h
    · exact (List.takeWhile_subset _) hc
    · have hsub := List.dropWhile_subset (l := s) (fun c => !p c)
      rw [hdrop] at hsub
      exact hsub (List.mem_cons_of_mem _ (ih h))

theorem oneLine_of_mem_splitn {p : Char → Bool} {n : Nat} {s part : Text} (hs : OneLine s)
    (h : part ∈ splitn p n s) : OneLine part :=
  fun hmem => hs (mem_of_mem_splitn h hmem)

theorem oneLine_trim {s : Text} (h : OneLine s) : OneLine (trim s) := by
  intro hmem
  rw [trim_eq] at hmem
  have hsub := List.IsPrefix.subset
    (List.rdropWhile_prefix (p := isWhitespace) (s.dropWhile isWhitespace))
  exact h (List.dropWhile_subset _ (hsub hmem))

/-! ## Section 2: One line after the other -/

/-- A reply that the client finds the end of. -/
def SelfDelimiting (reply : Text) : Prop :=
  ∃ lines last, reply = replyText lines last ∧ Delimited lines last

/-- A reply of one line. -/
theorem selfDelimiting_line {last : Text} (h : OneLine last)
    (hterminal : isTerminal (last ++ ['\n']) = true) : SelfDelimiting (last ++ ['\n']) := by
  refine ⟨[], last, rfl, ?_⟩
  have hnone : ∀ line ∈ ([] : List Text), False := fun _ hmem => absurd hmem List.not_mem_nil
  exact ⟨fun line hmem => (hnone line hmem).elim, fun line hmem => (hnone line hmem).elim, h,
    hterminal⟩

theorem selfDelimiting_head (head : Text) {rest : Text} {c : Char} (hc : isWhitespace c = false)
    (hhead : (str "OK ").isPrefixOf (head ++ [c]) = true ∨
      (str "ERROR").isPrefixOf (head ++ [c]) = true ∨ (str "BYE").isPrefixOf (head ++ [c]) = true)
    (h : OneLine (head ++ c :: rest)) : SelfDelimiting (head ++ c :: rest ++ ['\n']) := by
  refine selfDelimiting_line h ?_
  rw [List.append_assoc]
  exact isTerminal_of_head hc hhead (rest ++ ['\n'])

theorem selfDelimiting_error {rest : Text} (h : OneLine rest) :
    SelfDelimiting (str "ERROR" ++ rest ++ ['\n']) := by
  have hline : OneLine (str "ERROR" ++ rest) := OneLine.append (by decide) h
  exact selfDelimiting_head (str "ERRO") (c := 'R') rfl (.inr (.inl rfl)) hline

/-! ## Section 3: The lines of STATUS -/

/-- A `drive` line, without its line feed. -/
def driveText (r : UInt8 × Text × UInt32) : Text :=
  str "drive " ++ decimal r.1.toNat ++ str " " ++ decimal r.2.2.toNat ++ str " " ++ r.2.1

/-- A `vserial` line, without its line feed. -/
def vserialText (r : Channel × Bool × Nat × Nat) : Text :=
  str "vserial " ++ decimal r.1.val ++ str " " ++ (if r.2.1 then str "open" else str "closed") ++
    str " inbox=" ++ decimal r.2.2.1 ++ str " outbox=" ++ decimal r.2.2.2

/-- The channels that have a line. -/
def listed (r : Channel × Bool × Nat × Nat) : Bool := r.2.1 ∨ 0 < r.2.2.1 ∨ 0 < r.2.2.2

def statusLines (drives : List (UInt8 × Text × UInt32))
    (channels : List (Channel × Bool × Nat × Nat)) : List Text :=
  drives.map driveText ++ (channels.filter listed).map vserialText

theorem unlines_append (ls ls' : List Text) : unlines (ls ++ ls') = unlines ls ++ unlines ls' :=
  List.flatMap_append

theorem drives_unlines (drives : List (UInt8 × Text × UInt32)) :
    drives.flatMap driveLine = unlines (drives.map driveText) := by
  rw [unlines, List.flatMap_map]
  rfl

theorem channels_unlines (channels : List (Channel × Bool × Nat × Nat)) :
    channels.flatMap vserialLine = unlines ((channels.filter listed).map vserialText) := by
  induction channels with
  | nil => rfl
  | cons r channels ih =>
    rw [List.flatMap_cons, ih]
    by_cases h : r.2.1 = true ∨ 0 < r.2.2.1 ∨ 0 < r.2.2.2
    · have hlisted : listed r = true := decide_eq_true h
      rw [List.filter_cons_of_pos hlisted, vserialLine, if_pos h]
      rfl
    · have hlisted : ¬ listed r = true := by simpa [listed] using h
      rw [List.filter_cons_of_neg hlisted, vserialLine, if_neg h]
      rfl

theorem status_replyText (drives : List (UInt8 × Text × UInt32))
    (channels : List (Channel × Bool × Nat × Nat)) :
    drives.flatMap driveLine ++ channels.flatMap vserialLine ++ str "OK\n" =
      replyText (statusLines drives channels) (str "OK") := by
  rw [replyText, statusLines, unlines_append, drives_unlines, channels_unlines]
  rfl

theorem oneLine_driveText {r : UInt8 × Text × UInt32} (h : OneLine r.2.1) :
    OneLine (driveText r) := by
  have hslot := OneLine.append (by decide : OneLine (str "drive ")) (oneLine_decimal r.1.toNat)
  have hsectors := OneLine.append (hslot.append (by decide : OneLine (str " ")))
    (oneLine_decimal r.2.2.toNat)
  exact OneLine.append (hsectors.append (by decide : OneLine (str " "))) h

theorem oneLine_vserialText (r : Channel × Bool × Nat × Nat) : OneLine (vserialText r) := by
  have hstate : OneLine (if r.2.1 then str "open" else str "closed") := by
    split <;> decide
  have hchannel := OneLine.append (by decide : OneLine (str "vserial ")) (oneLine_decimal r.1.val)
  have hopen := OneLine.append (hchannel.append (by decide : OneLine (str " "))) hstate
  have hinbox := OneLine.append (hopen.append (by decide : OneLine (str " inbox=")))
    (oneLine_decimal r.2.2.1)
  exact OneLine.append (hinbox.append (by decide : OneLine (str " outbox=")))
    (oneLine_decimal r.2.2.2)

theorem status_delimited {drives : List (UInt8 × Text × UInt32)}
    (h : ∀ r ∈ drives, OneLine r.2.1) (channels : List (Channel × Bool × Nat × Nat)) :
    Delimited (statusLines drives channels) (str "OK") where
  whole := by
    intro line hline
    rcases List.mem_append.mp hline with hline | hline
    · obtain ⟨r, hr, rfl⟩ := List.mem_map.mp hline
      exact oneLine_driveText (h r hr)
    · obtain ⟨r, -, rfl⟩ := List.mem_map.mp hline
      exact oneLine_vserialText r
  goesOn := by
    intro line hline
    rcases List.mem_append.mp hline with hline | hline
    · obtain ⟨r, -, rfl⟩ := List.mem_map.mp hline
      simp only [driveText, List.append_assoc]
      exact isTerminal_of_letter (c := 'd') rfl (by decide) (by decide) (by decide) _
    · obtain ⟨r, -, rfl⟩ := List.mem_map.mp hline
      simp only [vserialText, List.append_assoc]
      exact isTerminal_of_letter (c := 'v') rfl (by decide) (by decide) (by decide) _
  wholeEnd := by decide
  terminal := by decide

/-! ## Section 4: What a control session relies on -/

/-- Whether a task talks to a client of the control socket. -/
inductive Role where
  | off     : Role
  | control : Role
  | other   : Role

section roles

variable [VDisk D]

/-- Only disks whose names are one line are mounted, only files whose paths
    are one line are opened, and only replies with an end are written. -/
def Role.Allows : Role → Eff D → Prop
  | .off, _ => False
  | .control, .io (.writeAll bs) => ∃ reply, bs = encode reply ∧ SelfDelimiting reply
  | _, .op (.driveInsert _ d) => OneLine (VDisk.name d)
  | _, .sys (.diskOpen path _) => OneLine path
  | _, _ => True

/-- A command is one line, an image has the path that it was opened at for
    its name, and errors are told in one line. -/
def Role.Admits : Role → (e : Eff D) → e.Res → Prop
  | _, .io .nextLine, r => ∀ line, r = .ok (some line) → OneLine line
  | _, .sys (.diskOpen path _), .ok d => VDisk.name d = path
  | _, .sys (.diskOpen _ _), .error e => OneLine e.display
  | _, .op .driveRows, rows => ∀ r ∈ rows, OneLine (VDisk.name r.2)
  | _, _, _ => True

def speaking : Protocol (Eff D) Eff.Res Role where
  allows := Role.Allows
  admits := Role.Admits
  next   := fun role _ _ => role

/-- What is left of a reply when the task goes on. -/
def Replies (role : Role) (reply : Text) (role' : Role) : Prop :=
  role' = role ∧ SelfDelimiting reply

theorem badSlot_selfDelimiting [UnicodeTables] (slot : Text) : SelfDelimiting (badSlot slot) := by
  have hrest : OneLine (str " slot must be a u8 (got " ++ debugStr slot ++ str ")") := by
    exact OneLine.append (OneLine.append (by decide) (oneLine_debugStr slot)) (by decide)
  have hreply := selfDelimiting_error hrest
  simpa [badSlot, str] using hreply

theorem allows_lock {role : Role} (h : role ≠ .off) (l : Lock) (m : Mode) :
    role.Allows (.lock l m : Eff D) := by
  cases role with
  | off => exact h rfl
  | _ => trivial

theorem allows_unlock {role : Role} (h : role ≠ .off) (l : Lock) :
    role.Allows (.unlock l : Eff D) := by
  cases role with
  | off => exact h rfl
  | _ => trivial

theorem allows_op {role : Role} (h : role ≠ .off) {o : Op D}
    (hname : ∀ n d, o = .driveInsert n d → OneLine (VDisk.name d)) : role.Allows (.op o) := by
  cases role with
  | off => exact h rfl
  | _ =>
    cases o with
    | driveInsert n d => exact hname n d rfl
    | _ => trivial

theorem allows_open {role : Role} (h : role ≠ .off) {path : Text} (hpath : OneLine path)
    (readOnly : Bool) : role.Allows (.sys (.diskOpen path readOnly) : Eff D) := by
  cases role with
  | off => exact h rfl
  | _ => exact hpath

variable [UnicodeTables]

omit [VDisk D] [UnicodeTables] in
theorem mountReply_selfDelimiting {slot : UInt8} {r : Except VDiskError (UInt32 × Text)}
    (hok : ∀ x, r = .ok x → OneLine x.2) (herror : ∀ e, r = .error e → OneLine e.display) :
    SelfDelimiting (mountReply slot r) := by
  cases r with
  | ok x =>
    obtain ⟨sectors, name⟩ := x
    have hrest : OneLine (str "OK " ++ 'm' :: (str "ounted slot " ++ decimal slot.toNat ++
        str " sectors=" ++ decimal sectors.toNat ++ str " path=" ++ name)) := by
      have hname : OneLine name := hok (sectors, name) rfl
      have hslot := OneLine.append (by decide : OneLine (str "ounted slot "))
        (oneLine_decimal slot.toNat)
      have hsectors := OneLine.append (hslot.append (by decide : OneLine (str " sectors=")))
        (oneLine_decimal sectors.toNat)
      have hpath := OneLine.append (hsectors.append (by decide : OneLine (str " path="))) hname
      exact OneLine.append (by decide) (OneLine.cons (by decide) hpath)
    have hreply := selfDelimiting_head _ rfl (.inl rfl) hrest
    simpa [mountReply, str] using hreply
  | error e =>
    have hrest : OneLine (str " mount failed: " ++ e.display) :=
      OneLine.append (by decide) (herror e rfl)
    have hreply := selfDelimiting_error hrest
    simpa [mountReply, str] using hreply

/-- What `mount_dsk` returns. -/
def Mounted (role : Role) (r : Except VDiskError (UInt32 × Text)) (role' : Role) : Prop :=
  role' = role ∧ (∀ x, r = .ok x → OneLine x.2) ∧ ∀ e, r = .error e → OneLine e.display

omit [UnicodeTables] in
theorem mountDsk_speaking {role : Role} (hrole : role ≠ .off) (slot : UInt8) {path : Text}
    (hpath : OneLine path) (readOnly : Bool) :
    (mountDsk (D := D) slot path readOnly).Obeys speaking role (Mounted role) := by
  refine ⟨allows_open hrole hpath readOnly, fun r hr => ?_⟩
  cases r with
  | ok d =>
    have hname : VDisk.name d = path := by
      cases role <;> exact hr
    have hinsert : ∀ m d', (Op.driveInsert slot d : Op D) = .driveInsert m d' →
        OneLine (VDisk.name d') := by
      intro m d' heq
      cases heq
      rwa [hname]
    refine ⟨allows_lock hrole _ _, fun _ _ => ⟨allows_op hrole hinsert, fun _ _ => ?_⟩⟩
    refine ⟨allows_unlock hrole _, fun _ _ => ⟨rfl, fun x hx => ?_, fun e he => ?_⟩⟩
    · cases hx
      show OneLine (VDisk.name d)
      rwa [hname]
    · cases he
  | error e =>
    refine ⟨rfl, fun x hx => ?_, fun e' he => ?_⟩
    · cases hx
    · cases he
      cases role <;> exact hr

theorem controlMount_speaking {role : Role} (hrole : role ≠ .off) {fields : List Text}
    (h : ∀ field ∈ fields, OneLine field) :
    (controlMount (D := D) fields).Obeys speaking role (Replies role) := by
  unfold controlMount
  split
  · rename_i slot path rest
    have hpath : OneLine path := h path (by simp)
    split
    · rename_i n hn
      refine (mountDsk_speaking hrole n hpath false).bind fun r role' hr => ?_
      obtain ⟨rfl, hok, herror⟩ := hr
      have hreply : SelfDelimiting (mountReply n r) := mountReply_selfDelimiting hok herror
      cases r <;> exact ⟨rfl, hreply⟩
    · exact ⟨rfl, badSlot_selfDelimiting _⟩
  · have hrest : OneLine (str " usage: MOUNT <slot> <path>") := by decide
    exact ⟨rfl, selfDelimiting_error hrest⟩

omit [VDisk D] in
theorem controlUnmount_speaking [VDisk D] {role : Role} (hrole : role ≠ .off)
    (fields : List Text) :
    (controlUnmount (D := D) fields).Obeys speaking role (Replies role) := by
  unfold controlUnmount
  split
  · rename_i slot rest
    split
    · rename_i n hn
      refine ⟨allows_lock hrole _ _, fun _ _ => ⟨allows_op hrole ?_, fun _ _ => ?_⟩⟩
      · intro m d heq
        cases heq
      · refine ⟨allows_unlock hrole _, fun _ _ => ⟨rfl, ?_⟩⟩
        have hrest : OneLine (str "OK " ++ 'u' :: (str "nmounted slot " ++ decimal n.toNat)) :=
          OneLine.append (by decide) (OneLine.cons (by decide)
            (OneLine.append (by decide) (oneLine_decimal n.toNat)))
        have hreply := selfDelimiting_head _ rfl (.inl rfl) hrest
        simpa [str] using hreply
    · exact ⟨rfl, badSlot_selfDelimiting _⟩
  · have hrest : OneLine (str " usage: UNMOUNT <slot>") := by decide
    exact ⟨rfl, selfDelimiting_error hrest⟩

omit [UnicodeTables] in
theorem controlStatus_speaking {role : Role} (hrole : role ≠ .off) :
    (controlStatus (D := D)).Obeys speaking role (Replies role) := by
  have hop : ∀ o : Op D, (∀ n d, o ≠ .driveInsert n d) → role.Allows (.op o) := by
    intro o ho
    exact allows_op hrole fun n d heq => absurd heq (ho n d)
  refine ⟨allows_lock hrole _ _, fun _ _ => ⟨hop _ (fun _ _ h => by cases h), fun rows hrows => ?_⟩⟩
  have hnames : ∀ r ∈ rows, OneLine (VDisk.name r.2) := by
    cases role <;> exact hrows
  refine ⟨allows_unlock hrole _, fun _ _ => ?_⟩
  refine ⟨allows_lock hrole _ _, fun _ _ => ⟨hop _ (fun _ _ h => by cases h), fun opens _ => ?_⟩⟩
  refine ⟨allows_unlock hrole _, fun _ _ => ?_⟩
  refine ⟨allows_lock hrole _ _, fun _ _ => ⟨allows_lock hrole _ _, fun _ _ => ?_⟩⟩
  refine ⟨hop _ (fun _ _ h => by cases h), fun inboxes _ => ?_⟩
  refine ⟨hop _ (fun _ _ h => by cases h), fun outboxes _ => ?_⟩
  refine ⟨allows_unlock hrole _, fun _ _ => ⟨allows_unlock hrole _, fun _ _ => ⟨rfl, ?_⟩⟩⟩
  refine ⟨_, _, status_replyText _ _, status_delimited ?_ _⟩
  intro r hr
  obtain ⟨row, hrow, rfl⟩ := List.mem_map.mp hr
  exact hnames row hrow

/-- **Every command replies with an end**, if what it is given is one line. -/
theorem handleControlCommand_speaking {role : Role} (hrole : role ≠ .off) {line : Text}
    (h : OneLine line) :
    (handleControlCommand (D := D) line).Obeys speaking role (Replies role) := by
  unfold handleControlCommand
  have hparts : ∀ part ∈ splitn isWhitespace 3 line, OneLine part :=
    fun part hpart => oneLine_of_mem_splitn h hpart
  split
  · have hrest : OneLine (str " unknown verb: ") := by decide
    exact ⟨rfl, selfDelimiting_error hrest⟩
  · rename_i first fields hsplit
    rw [hsplit] at hparts
    -- one goal for each verb; an unknown one is repeated in the reply, in capitals
    have hverb := oneLine_toAsciiUppercase (hparts first List.mem_cons_self)
    have hfields : ∀ field ∈ fields, OneLine field :=
      fun field hmem => hparts field (List.mem_cons_of_mem _ hmem)
    dsimp only
    split
    · exact controlMount_speaking hrole hfields
    split
    · exact controlUnmount_speaking hrole fields
    split
    · exact controlStatus_speaking hrole
    split
    · have hbye : SelfDelimiting (str "BYE" ++ ['\n']) :=
        selfDelimiting_line (by decide) (by decide)
      exact ⟨rfl, hbye⟩
    · have hrest : OneLine (str " unknown verb: " ++ toAsciiUppercase first) :=
        OneLine.append (by decide) hverb
      have hreply := selfDelimiting_error hrest
      rw [← List.append_assoc] at hreply
      exact ⟨rfl, hreply⟩

/-! ## Section 5: Every run -/

def Role.enter : Tid → Role
  | .control _ => .control
  | _ => .other

theorem controlOnce_speaking :
    (controlOnce (D := D)).Obeys speaking .control (fun _ role => role = .control) := by
  have hrole : Role.control ≠ .off := fun h => by cases h
  refine controlOnce_obeys trivial (fun _ _ => rfl) (fun _ => rfl) (fun _ _ => rfl) ?_
  intro line hr _
  have hline : OneLine line := hr line rfl
  refine (handleControlCommand_speaking hrole (oneLine_trim hline)).mono ?_
  intro reply role' hreply
  obtain ⟨rfl, hdelimiting⟩ := hreply
  exact ⟨⟨reply, rfl, hdelimiting⟩, fun _ _ => rfl, rfl⟩

omit [UnicodeTables] in
theorem MountFree.allowed {e : Eff D} (h : MountFree e) : Role.other.Allows e := by
  cases e with
  | op o => cases o <;> trivial
  | sys y => cases y <;> trivial
  | _ => trivial

theorem body_speaking (t : Tid) :
    (body t : Code D _).Obeys speaking (Role.enter t) (fun _ role => role = Role.enter t) := by
  by_cases hcontrol : ∃ n, t = .control n
  · obtain ⟨n, rfl⟩ := hcontrol
    exact controlOnce_speaking
  · have hrole : Role.enter t = .other := by
      cases t with
      | control n => exact absurd ⟨n, rfl⟩ hcontrol
      | _ => rfl
    rw [hrole]
    have hfree : (body t : Code D _).Only MountFree :=
      body_mountFree fun n h => hcontrol ⟨n, h⟩
    exact hfree.obeys fun e he => ⟨he.allowed, fun _ _ => rfl⟩

/-- Files are named by the paths they are opened at, and errors are told in
    one line. -/
structure Named (host : Host D F) : Prop where
  name  : ∀ path readOnly f d, (host (.diskOpen path readOnly) f).1 = .ok d → VDisk.name d = path
  error : ∀ path readOnly f e,
    (host (.diskOpen path readOnly) f).1 = .error e → OneLine e.display

omit [VDisk D] [UnicodeTables] in
/-- The disks and files of `host`, which may let a task wait, with any
    peers. -/
def withHost (rest : Env D F N) (host : Host D F) : Env D F N :=
  { rest with
    sys := fun _ y f r f' =>
      r = .pending ∧ f' = f ∨ r = .ready (host y f).1 ∧ f' = (host y f).2 }

/-- A control session reads lines. -/
def readsLines (_ : SysConfig D F N) (l : SysLabel D) : Prop :=
  ∀ line, l.2 = ⟨.io .nextLine, .ok (some line)⟩ → OneLine line

/-- No mounted image has a line feed in its name. -/
def NamesOneLine (s : Server D) : Prop := ∀ slot d, s.drives slot = some d → OneLine (VDisk.name d)

/-- Every reply that was written to a control client ends where the client
    thinks. -/
def RepliesEnd (tr : List (SysLabel D)) : Prop :=
  ∀ n bs r, ((.control n, ⟨.io (.writeAll bs), r⟩) : SysLabel D) ∈ tr →
    ∃ reply, bs = encode reply ∧ SelfDelimiting reply

omit [UnicodeTables] in
theorem admits_op {s : Server D} (h : NamesOneLine s) (role : Role) (o : Op D) :
    role.Admits (.op o) (o.run s).1 := by
  cases o with
  | driveRows =>
    have hrows : ∀ r ∈ mountedRows s.drives, OneLine (VDisk.name r.2) :=
      fun r hr => h r.1 r.2 (mem_mountedRows.mp hr)
    cases role <;> exact hrows
  | _ => cases role <;> trivial

omit [UnicodeTables] in
theorem admits_sys {host : Host D F} (h : Named host) (role : Role) (y : Sys D) (f : F) :
    role.Admits (.sys y) (host y f).1 := by
  cases y with
  | diskOpen path readOnly =>
    cases hr : (host (.diskOpen path readOnly) f).1 with
    | ok d =>
      have hname := h.name path readOnly f d hr
      cases role <;> exact hname
    | error e =>
      have herror := h.error path readOnly f e hr
      cases role <;> exact herror
  | _ => cases role <;> trivial

omit [UnicodeTables] in
/-- What is allowed keeps the names in one line. -/
theorem allows_names {role : Role} {e : Eff D} (h : role.Allows e) {s : Server D}
    (hs : NamesOneLine s) : NamesOneLine (e.serverAfter s) := by
  cases e with
  | op o =>
    cases o with
    | driveInsert n d =>
      -- the disk that is mounted is the one that was opened, under a path of the line
      have hname : OneLine (VDisk.name d) := by
        cases role with
        | off => cases h
        | _ => exact h
      intro slot d' hd'
      have hd' : Function.update s.drives n (some d) slot = some d' := hd'
      by_cases hslot : slot = n
      · subst hslot
        rw [Function.update_self] at hd'
        cases hd'
        exact hname
      · rw [Function.update_of_ne hslot] at hd'
        exact hs slot d' hd'
    | driveRemove n =>
      intro slot d' hd'
      have hd' : Function.update s.drives n none slot = some d' := hd'
      by_cases hslot : slot = n
      · subst hslot
        rw [Function.update_self] at hd'
        cases hd'
      · rw [Function.update_of_ne hslot] at hd'
        exact hs slot d' hd'
    | _ => exact hs
  | _ => exact hs

/-- The invariant of the runs. -/
structure Speaking (tr : List (SysLabel D)) (roles : Tid → Role) (w : World D F N) : Prop where
  roles   : ∀ t, roles t = .off ∨ roles t = Role.enter t
  names   : NamesOneLine w.server
  replies : RepliesEnd tr

def speakingDiscipline (env : Env D F N) : Discipline (system env) Role where
  toProtocol := speaking
  off        := .off
  gone       := .off
  enter      := Role.enter
  leave      := fun t _ role => role = Role.enter t
  body_obeys := body_speaking

omit [UnicodeTables] in
/-- What the system answers is what the tasks rely on. -/
theorem admits_poll {rest : Env D F N} {host : Host D F} (hhost : Named host) {t : Tid}
    {e : Eff D} {r : e.Res} {w w' : World D F N} (hnames : NamesOneLine w.server)
    (hlines : ∀ line, (⟨e, r⟩ : Event (Eff.Res (D := D))) = ⟨.io .nextLine, .ok (some line)⟩ →
      OneLine line)
    (hpoll : poll (withHost rest host) t e w (.ready r) w') (role : Role) : role.Admits e r := by
  cases e with
  | io i =>
    cases i with
    | nextLine =>
      have hline : ∀ line, r = .ok (some line) → OneLine line := by
        intro line hr
        cases hr
        exact hlines line rfl
      cases role <;> exact hline
    | _ => cases role <;> trivial
  | sys y =>
    obtain ⟨f, ⟨hr, -⟩ | ⟨hr, -⟩, -⟩ := hpoll
    · cases hr
    · cases hr
      exact admits_sys hhost role y w.sys
  | op o =>
    obtain ⟨hr, -⟩ := hpoll
    cases hr
    exact admits_op hnames role o
  | _ => cases role <;> trivial

omit [UnicodeTables] in
theorem speaking_role {roles : Tid → Role} (h : ∀ t, roles t = .off ∨ roles t = Role.enter t)
    {t : Tid} {role : Role} (hrole : role = .off ∨ role = Role.enter t) (u : Tid) :
    Function.update roles t role u = .off ∨ Function.update roles t role u = Role.enter u := by
  by_cases hu : u = t
  · subst hu
    rw [Function.update_self]
    exact hrole
  · rw [Function.update_of_ne hu]
    exact h u

theorem speakingDiscipline_keeps (rest : Env D F N) {host : Host D F} (hhost : Named host) :
    (speakingDiscipline (withHost rest host)).KeepsAlong readsLines Speaking where
  start := fun tr g w t h _ _ =>
    ⟨speaking_role h.roles (.inr rfl), h.names, h.replies⟩
  again := fun tr g w t h _ =>
    ⟨speaking_role h.roles (.inr rfl), h.names, h.replies⟩
  exit := fun tr g w t r h _ =>
    ⟨speaking_role h.roles (.inl rfl), h.names, h.replies⟩
  pending := by
    intro tr g w t e w' h _ hpoll
    refine ⟨h.roles, ?_, h.replies⟩
    rw [poll_pending_server hpoll]
    exact h.names
  ready := by
    intro tr c g t e k r w' h _ _ hallow hlines hpoll
    refine ⟨admits_poll hhost h.names hlines hpoll _, speaking_role h.roles (h.roles t), ?_, ?_⟩
    · rw [poll_server hpoll]
      exact allows_names hallow h.names
    · intro n bs r' hmem
      -- the new label is a reply only if a control session wrote it
      rcases List.mem_append.mp hmem with hmem | hmem
      · exact h.replies n bs r' hmem
      · cases List.mem_singleton.mp hmem
        rcases h.roles (.control n) with hoff | hcontrol
        · rw [hoff] at hallow
          cases hallow
        · rw [hcontrol] at hallow
          exact hallow
  ambient := by
    rintro tr g w w' h ⟨n, -, rfl⟩
    exact ⟨h.roles, h.names, h.replies⟩

/-- What a run from an empty server has reached. -/
theorem speaking_run (rest : Env D F N) {host : Host D F} (hhost : Named host) (f : F) (n : N)
    {tr : List (SysLabel D)} {c : SysConfig D F N}
    (hrun : Run (system (withHost rest host)) readsLines
      (Config.initial (World.initial (Server.new D) f n)) tr c) :
    NamesOneLine c.world.server ∧ RepliesEnd tr := by
  have hstart : Speaking [] (fun _ => Role.off)
      (World.initial (Server.new D) f n : World D F N) := by
    refine ⟨fun _ => .inl rfl, fun slot d h => ?_, fun n bs r h => ?_⟩ <;> cases h
  obtain ⟨roles, hroles⟩ := (speakingDiscipline (withHost rest host)).run_along
    (speakingDiscipline_keeps rest hhost) hrun
    ((speakingDiscipline (withHost rest host)).holds_initial hstart)
  exact ⟨hroles.1.names, hroles.1.replies⟩

/-- A command on its own, against a server whose drives have names of one
    line. -/
theorem command_selfDelimiting {host : Host D F} (hhost : Named host) {t : Tid} {line : Text}
    (hline : OneLine line) {w w' : World D F Wire} (hnames : NamesOneLine w.server) {reply : Text}
    (heval : (handleControlCommand line).eval (answer host false t) w = some (reply, w')) :
    SelfDelimiting reply := by
  have hrole : Role.control ≠ .off := fun h => by cases h
  have hanswer : ∀ (role : Role) (e : Eff D) (m : World D F Wire) (r : e.Res) m',
      NamesOneLine m.server → role.Allows e → answer host false t e m = some (r, m') →
      role.Admits e r ∧ NamesOneLine m'.server := by
    intro role e m r m' hm hallow hr
    refine ⟨?_, ?_⟩
    · cases e with
      | sys y =>
        cases hr
        exact admits_sys hhost role y m.sys
      | op o =>
        cases hr
        exact admits_op hm role o
      | io i =>
        cases i with
        | nextLine => cases hr
        | _ => cases role <;> trivial
      | _ => cases role <;> trivial
    · rw [answer_server hr]
      exact allows_names hallow hm
  obtain ⟨⟨role, -, hreply⟩, -⟩ := (handleControlCommand_speaking hrole hline).eval
    (P := speaking) (I := fun w => NamesOneLine w.server) hanswer hnames heval
  exact hreply

end roles

/-! ## Section 6: Reading STATUS -/

/-- What a line of STATUS says. -/
inductive StatusRow where
  | drive   : (slot sectors : Nat) → (name : Text) → StatusRow
  | vserial : (channel : Nat) → (isOpen : Bool) → (inbox outbox : Nat) → StatusRow
  | ok      : StatusRow
  deriving DecidableEq

/-- A field up to a blank, and what follows. -/
def readField (s : Text) : Text × Text :=
  (s.takeWhile (fun c => c ≠ ' '), (s.dropWhile (fun c => c ≠ ' ')).tail)

/-- A reader of STATUS lines. -/
def parseRow (line : Text) : Option StatusRow :=
  let (kind, rest) := readField line.dropLast
  if kind = str "drive" then
    let (slot, rest) := readField rest
    let (sectors, name) := readField rest
    some (.drive (digitsValue slot) (digitsValue sectors) name)
  else if kind = str "vserial" then
    let (channel, rest) := readField rest
    let (state, rest) := readField rest
    let (inbox, outbox) := readField rest
    some (.vserial (digitsValue channel) (state = str "open") (digitsValue (inbox.drop 6))
      (digitsValue (outbox.drop 7)))
  else if kind = str "OK" then some .ok
  else none

theorem readField_blank {field : Text} (h : ' ' ∉ field) (rest : Text) :
    readField (field ++ ' ' :: rest) = (field, rest) := by
  have hall : ∀ c ∈ field, decide (c ≠ ' ') = true := by
    intro c hc
    rw [decide_eq_true_iff]
    rintro rfl
    exact h hc
  rw [readField, List.takeWhile_append_of_pos hall, List.dropWhile_append_of_pos hall]
  simp

theorem digitsValue_decimal (n : Nat) : digitsValue (decimal n) = n := by
  have hfold : digitsValue (decimal n) = Nat.ofDigitChars 10 (Nat.toDigits 10 n) 0 := by
    rw [Nat.ofDigitChars_eq_foldl, digitsValue]
    simp only [Nat.mul_comm 10]
    rfl
  rw [hfold, Nat.ofDigitChars_ten_toDigits]

theorem blank_decimal (n : Nat) : ' ' ∉ decimal n := by
  intro h
  have hplain := (decimal_plain n _ h).1
  exact absurd hplain (by decide)

/-- A `drive` line is read back. -/
theorem parseRow_drive (r : UInt8 × Text × UInt32) :
    parseRow (driveText r ++ ['\n']) = some (.drive r.1.toNat r.2.2.toNat r.2.1) := by
  have hline : driveText r = str "drive" ++ ' ' :: (decimal r.1.toNat ++ ' ' ::
      (decimal r.2.2.toNat ++ ' ' :: r.2.1)) := by
    simp [driveText, str]
  rw [parseRow, List.dropLast_concat, hline, readField_blank (by decide)]
  dsimp only
  rw [if_pos rfl, readField_blank (blank_decimal _)]
  dsimp only
  rw [readField_blank (blank_decimal _), digitsValue_decimal, digitsValue_decimal]

/-- A `vserial` line is read back. -/
theorem parseRow_vserial (r : Channel × Bool × Nat × Nat) :
    parseRow (vserialText r ++ ['\n']) =
      some (.vserial r.1.val r.2.1 r.2.2.1 r.2.2.2) := by
  have hline : vserialText r = str "vserial" ++ ' ' :: (decimal r.1.val ++ ' ' ::
      ((if r.2.1 then str "open" else str "closed") ++ ' ' ::
        (str "inbox=" ++ decimal r.2.2.1 ++ ' ' :: (str "outbox=" ++ decimal r.2.2.2)))) := by
    simp [vserialText, str]
  have hstate : ' ' ∉ (if r.2.1 then str "open" else str "closed") := by
    split <;> decide
  have hinbox : ' ' ∉ str "inbox=" ++ decimal r.2.2.1 := by
    intro h
    rcases List.mem_append.mp h with h | h
    · exact absurd h (by decide)
    · exact blank_decimal _ h
  have hkind : str "vserial" ≠ str "drive" := by decide
  rw [parseRow, List.dropLast_concat, hline, readField_blank (by decide)]
  dsimp only
  rw [if_neg hkind, if_pos rfl, readField_blank (blank_decimal _)]
  dsimp only
  rw [readField_blank hstate]
  dsimp only
  rw [readField_blank hinbox]
  dsimp only
  have hdrop : (str "inbox=" ++ decimal r.2.2.1).drop 6 = decimal r.2.2.1 := rfl
  have hdrop' : (str "outbox=" ++ decimal r.2.2.2).drop 7 = decimal r.2.2.2 := rfl
  rw [hdrop, hdrop', digitsValue_decimal, digitsValue_decimal, digitsValue_decimal]
  cases r.2.1 <;> rfl

/-- The rows of STATUS, from what it has looked at. -/
def rowsOf (drives : List (UInt8 × Text × UInt32)) (channels : List (Channel × Bool × Nat × Nat)) :
    List StatusRow :=
  (drives.map fun r => .drive r.1.toNat r.2.2.toNat r.2.1) ++
    (channels.filter listed).map fun r => .vserial r.1.val r.2.1 r.2.2.1 r.2.2.2

theorem mapM_parseRow {α : Type} {text : α → Text} {row : α → StatusRow}
    (h : ∀ a, parseRow (text a ++ ['\n']) = some (row a)) (as : List α) :
    ((as.map text).map fun line => line ++ ['\n']).mapM parseRow = some (as.map row) := by
  induction as with
  | nil => rfl
  | cons a as ih =>
    rw [List.map_cons, List.map_cons, List.mapM_cons, h, ih]
    rfl

/-- **STATUS is read back** from its lines. -/
theorem status_parsed {drives : List (UInt8 × Text × UInt32)}
    (h : ∀ r ∈ drives, OneLine r.2.1) (channels : List (Channel × Bool × Nat × Nat)) :
    (readLines (replyText (statusLines drives channels) (str "OK"))).mapM parseRow =
      some (rowsOf drives channels ++ [.ok]) := by
  have hread := (status_delimited h channels).readLines []
  rw [List.append_nil] at hread
  rw [hread, List.mapM_append, statusLines, List.map_append, List.mapM_append,
    mapM_parseRow parseRow_drive, mapM_parseRow parseRow_vserial]
  rfl

/-! ## Section 7: What STATUS reports -/

def StatusRow.slot : StatusRow → Option Nat
  | .drive slot _ _ => some slot
  | _ => none

def StatusRow.channel : StatusRow → Option Nat
  | .vserial channel _ _ _ => some channel
  | _ => none

/-- The rows are exactly the mounted drives and the channels that are open or
    have queued bytes, both in increasing order and so without duplicates. -/
structure Reports [VDisk D] (s : Server D) (rows : List StatusRow) : Prop where
  drives       : ∀ slot sectors name, .drive slot sectors name ∈ rows ↔
    ∃ n d, s.drives n = some d ∧ slot = n.toNat ∧ sectors = (VDisk.sectorCount d).toNat ∧
      name = VDisk.name d
  driveOrder   : (rows.filterMap StatusRow.slot).Pairwise (· < ·)
  channels     : ∀ channel isOpen inbox outbox, .vserial channel isOpen inbox outbox ∈ rows ↔
    ∃ c : Channel, channel = c.val ∧ isOpen = s.vserialOpen c ∧
      inbox = (s.vserialInbox c).length ∧ outbox = (s.vserialOutbox c).length ∧
      (isOpen = true ∨ 0 < inbox ∨ 0 < outbox)
  channelOrder : (rows.filterMap StatusRow.channel).Pairwise (· < ·)

section status

variable [VDisk D]

/-- What `drive_summary` returns. -/
def driveRows (s : Server D) : List (UInt8 × Text × UInt32) :=
  (mountedRows s.drives).map fun r => (r.1, VDisk.name r.2, VDisk.sectorCount r.2)

omit [VDisk D] in
/-- A channel, as `vserial_summary` describes it. -/
def channelRow (s : Server D) (i : Channel) : Channel × Bool × Nat × Nat :=
  (i, s.vserialOpen i, (s.vserialInbox i).length, (s.vserialOutbox i).length)

omit [VDisk D] in
/-- What `vserial_summary` returns. -/
def channelRows (s : Server D) : List (Channel × Bool × Nat × Nat) :=
  (List.finRange vserialChannels).map (channelRow s)

omit [VDisk D] in
theorem mountedRows_order (drives : UInt8 → Option D) :
    (mountedRows drives).Pairwise fun r r' => r.1.toNat < r'.1.toNat := by
  rw [mountedRows, List.pairwise_filterMap]
  refine List.pairwise_lt_range.imp_of_mem ?_
  intro n m hn hm hlt r hr r' hr'
  obtain ⟨d, -, rfl⟩ := Option.map_eq_some_iff.mp hr
  obtain ⟨d', -, rfl⟩ := Option.map_eq_some_iff.mp hr'
  have hn := List.mem_range.mp hn
  have hm := List.mem_range.mp hm
  rw [UInt8.toNat_ofNat', UInt8.toNat_ofNat', Nat.mod_eq_of_lt (by omega),
    Nat.mod_eq_of_lt (by omega)]
  exact hlt

omit [VDisk D] in
theorem rowsOf_slots (drives : List (UInt8 × Text × UInt32))
    (channels : List (Channel × Bool × Nat × Nat)) :
    (rowsOf drives channels).filterMap StatusRow.slot = drives.map fun r => r.1.toNat := by
  rw [rowsOf, List.filterMap_append, List.filterMap_map, List.filterMap_map]
  have hdrives : (StatusRow.slot ∘ fun r : UInt8 × Text × UInt32 =>
      StatusRow.drive r.1.toNat r.2.2.toNat r.2.1) = some ∘ fun r => r.1.toNat := rfl
  have hchannels : (StatusRow.slot ∘ fun r : Channel × Bool × Nat × Nat =>
      StatusRow.vserial r.1.val r.2.1 r.2.2.1 r.2.2.2) = fun _ => none := rfl
  rw [hdrives, hchannels, List.filterMap_eq_map]
  simp

omit [VDisk D] in
theorem rowsOf_channels (drives : List (UInt8 × Text × UInt32))
    (channels : List (Channel × Bool × Nat × Nat)) :
    (rowsOf drives channels).filterMap StatusRow.channel =
      (channels.filter listed).map fun r => r.1.val := by
  rw [rowsOf, List.filterMap_append, List.filterMap_map, List.filterMap_map]
  have hdrives : (StatusRow.channel ∘ fun r : UInt8 × Text × UInt32 =>
      StatusRow.drive r.1.toNat r.2.2.toNat r.2.1) = fun _ => none := rfl
  have hchannels : (StatusRow.channel ∘ fun r : Channel × Bool × Nat × Nat =>
      StatusRow.vserial r.1.val r.2.1 r.2.2.1 r.2.2.2) = some ∘ fun r => r.1.val := rfl
  rw [hdrives, hchannels, List.filterMap_eq_map]
  simp

theorem rowsOf_reports (s : Server D) : Reports s (rowsOf (driveRows s) (channelRows s)) where
  drives := by
    intro slot sectors name
    simp only [rowsOf, List.mem_append, List.mem_map]
    constructor
    · -- a `drive` row comes from the table; no `vserial` row is one
      rintro (⟨r, hr, hrow⟩ | ⟨r, -, hrow⟩)
      · obtain ⟨row, hmem, rfl⟩ := List.mem_map.mp hr
        cases hrow
        exact ⟨row.1, row.2, mem_mountedRows.mp hmem, rfl, rfl, rfl⟩
      · cases hrow
    · rintro ⟨n, d, hd, rfl, rfl, rfl⟩
      refine .inl ⟨(n, VDisk.name d, VDisk.sectorCount d), ?_, rfl⟩
      exact List.mem_map.mpr ⟨(n, d), mem_mountedRows.mpr hd, rfl⟩
  driveOrder := by
    rw [rowsOf_slots, driveRows, List.map_map]
    exact (mountedRows_order s.drives).map _ fun _ _ h => h
  channels := by
    intro channel isOpen inbox outbox
    simp only [rowsOf, List.mem_append, List.mem_map]
    constructor
    · rintro (⟨r, -, hrow⟩ | ⟨r, hr, hrow⟩)
      · cases hrow
      · obtain ⟨hmem, hlisted⟩ := List.mem_filter.mp hr
        obtain ⟨c, -, rfl⟩ := List.mem_map.mp hmem
        cases hrow
        exact ⟨c, rfl, rfl, rfl, rfl, of_decide_eq_true hlisted⟩
    · rintro ⟨c, rfl, rfl, rfl, rfl, hlisted⟩
      refine .inr ⟨channelRow s c, List.mem_filter.mpr ⟨?_, decide_eq_true hlisted⟩, rfl⟩
      exact List.mem_map.mpr ⟨c, List.mem_finRange c, rfl⟩
  channelOrder := by
    rw [rowsOf_channels, channelRows, List.filter_map, List.map_map]
    have hsorted := (List.pairwise_lt_finRange vserialChannels).filter (listed ∘ channelRow s)
    exact hsorted.map _ fun _ _ h => h

variable {F : Type} [UnicodeTables]

omit [VDisk D] [UnicodeTables] in
theorem eval_vserialSummary (host : Host D F) (t : Tid) (s : State D F) (wire : Wire) :
    vserialSummary.eval (answer host false t) (s.world wire) =
      some (channelRows s.server, s.world wire) := by
  rw [vserialSummary, Prog.eval_bind, eval_guarded]
  simp [withLock, await, answer, State.world, World.acquire, World.release, Op.run]
  refine ⟨rfl, ?_⟩
  -- both guards are dropped again
  funext l
  cases l <;> rfl

omit [UnicodeTables] in
/-- The reply to STATUS, when no other task uses the server. -/
theorem eval_controlStatus (host : Host D F) (t : Tid) (s : State D F) (wire : Wire) :
    controlStatus.eval (answer host false t) (s.world wire) =
      some (replyText (statusLines (driveRows s.server) (channelRows s.server)) (str "OK"),
        s.world wire) := by
  have hdrives : driveSummary.eval (answer host false t) (s.world wire) =
      some (driveRows s.server, s.world wire) := by
    rw [driveSummary, Prog.eval_bind, eval_guarded]
    rfl
  rw [controlStatus, Prog.eval_bind, hdrives]
  rw [Option.bind_some, Prog.eval_bind, eval_vserialSummary, Option.bind_some]
  exact congrArg (fun reply => some (reply, s.world wire)) (status_replyText _ _)

theorem handleControlCommand_status {line : Text} (h : verbOf line = str "STATUS") :
    handleControlCommand (D := D) line = controlStatus := by
  unfold handleControlCommand
  split
  · rename_i hsplit
    rw [verbOf, hsplit] at h
    exact absurd h (by decide)
  · rename_i first fields hsplit
    rw [verbOf, hsplit] at h
    have hverb : toAsciiUppercase first = str "STATUS" := h
    dsimp only
    rw [hverb, if_neg (by decide), if_neg (by decide), if_pos rfl]

end status

/-! ## Section 8: The replies of the server -/

/-- The client reads a reply as a whole, whatever is sent after it: the last
    line is terminal, and no other line is. -/
structure ReadWhole (reply : Text) : Prop where
  returned : ∀ more, controlRequest (reply ++ more) = reply
  terminal : ∃ lines last, readLines reply = lines ++ [last] ∧ isTerminal last = true ∧
    ∀ line ∈ lines, isTerminal line = false

theorem SelfDelimiting.readWhole {reply : Text} (h : SelfDelimiting reply) : ReadWhole reply := by
  obtain ⟨lines, last, rfl, hdelimited⟩ := h
  refine ⟨hdelimited.controlRequest, lines.map fun line => line ++ ['\n'], last ++ ['\n'], ?_,
    hdelimited.terminal, fun line hline => ?_⟩
  · have hread := hdelimited.readLines []
    rw [List.append_nil] at hread
    exact hread
  · obtain ⟨line, hmem, rfl⟩ := List.mem_map.mp hline
    exact hdelimited.goesOn line hmem

/-- No file is opened with an error that has a line feed in its text. -/
structure PlainErrors {F : Type} (fs : (e : FileEff) → F → e.Res × F) : Prop where
  openFile    : ∀ path write f e, (fs (.openFile path write) f).1 = .error e → OneLine e.message
  metadataLen : ∀ handle f e, (fs (.metadataLen handle) f).1 = .error e → OneLine e.message

section files

variable {F : Type} {fs : (e : FileEff) → F → e.Res × F}

theorem exec_fileOp_ok {α β : Type} {code : Prog FileEff FileEff.Res (Except IoError α)}
    {k : α → DiskCode β} {f : F} {a : α} (h : (code.exec fs f).1 = .ok a) :
    (fileOp code >>= k).run.exec fs f = (k a).run.exec fs (code.exec fs f).2 := by
  rw [ExceptT.run_bind, Prog.exec_bind, fileOp, ExceptT.run_mk, Prog.exec_bind, h]
  rfl

theorem exec_fileOp_error {α β : Type} {code : Prog FileEff FileEff.Res (Except IoError α)}
    {k : α → DiskCode β} {f : F} {e : IoError} (h : (code.exec fs f).1 = .error e) :
    ((fileOp code >>= k).run.exec fs f).1 = .error (.io e) := by
  rw [ExceptT.run_bind, Prog.exec_bind, fileOp, ExceptT.run_mk, Prog.exec_bind, h]
  rfl

theorem fileHost_named (hfs : PlainErrors fs) (localTime : F → Option OffsetDateTime)
    (utc : F → OffsetDateTime) : Named (fileHost fs localTime utc) := by
  have hdisplay : ∀ e : IoError, OneLine e.message → OneLine (VDiskError.io e).display :=
    fun e he => OneLine.append (by decide) he
  have hopen : ∀ path readOnly f,
      (∀ d, ((DskFile.open path readOnly).run.exec fs f).1 = .ok d → d.path = path) ∧
        ∀ e, ((DskFile.open path readOnly).run.exec fs f).1 = .error e → OneLine e.display := by
    intro path readOnly f
    rw [DskFile.open]
    -- `open` fails at the file or at its length, and each error is one line
    cases hfile : ((Prog.perform (FileEff.openFile path !readOnly)).exec fs f).1 with
    | error e =>
      rw [exec_fileOp_error hfile]
      refine ⟨fun d hd => ?_, fun e' he' => ?_⟩
      · cases hd
      · cases he'
        exact hdisplay e (hfs.openFile _ _ _ e hfile)
    | ok handle =>
      rw [exec_fileOp_ok hfile]
      cases hlen : ((Prog.perform (FileEff.metadataLen handle)).exec fs
          ((Prog.perform (FileEff.openFile path !readOnly)).exec fs f).2).1 with
      | error e =>
        rw [exec_fileOp_error hlen]
        refine ⟨fun d hd => ?_, fun e' he' => ?_⟩
        · cases hd
        · cases he'
          exact hdisplay e (hfs.metadataLen _ _ e hlen)
      | ok len =>
        rw [exec_fileOp_ok hlen]
        refine ⟨fun d hd => ?_, fun e' he' => ?_⟩
        · cases hd
          rfl
        · cases he'
  exact ⟨fun path readOnly f => (hopen path readOnly f).1,
    fun path readOnly f => (hopen path readOnly f).2⟩

end files

/-- **Control replies delimit themselves, and STATUS loses nothing.**  In
    every run from an empty server, every reply that is sent is read by the
    client as a whole.  In every state that is reached, every command replies
    so, and the rows of STATUS report the drives and the channels. -/
theorem control_reply [UnicodeTables] {F N : Type} {fs : (e : FileEff) → F → e.Res × F}
    (hfs : PlainErrors fs) (localTime : F → Option OffsetDateTime) (utc : F → OffsetDateTime)
    (rest : Env DskFile F N) (f : F) (n : N) {tr : List (SysLabel DskFile)}
    {c : SysConfig DskFile F N}
    (hrun : Run (system (withHost rest (fileHost fs localTime utc))) readsLines
      (Config.initial (World.initial (Server.new DskFile) f n)) tr c) :
    (∀ k bs r, (.control k, ⟨.io (.writeAll bs), r⟩) ∈ tr →
      ∃ reply, bs = encode reply ∧ ReadWhole reply) ∧
    ∀ (line : Text), OneLine line → ∀ (t : Tid) (s : State DskFile F) (wire : Wire),
      s.server = c.world.server → ∃ reply s',
        (handleControlCommand line).eval (answer (fileHost fs localTime utc) false t)
          (s.world wire) = some (reply, State.world s' wire) ∧
        ReadWhole reply ∧
        (verbOf line = str "STATUS" → ∃ rows,
          (readLines reply).mapM parseRow = some (rows ++ [.ok]) ∧
            Reports c.world.server rows) := by
  have hnamed := fileHost_named hfs localTime utc
  obtain ⟨hnames, hreplies⟩ := speaking_run rest hnamed f n hrun
  refine ⟨fun k bs r hmem => ?_, fun line hline t s wire hs => ?_⟩
  · obtain ⟨reply, hbs, hreply⟩ := hreplies k bs r hmem
    exact ⟨reply, hbs, hreply.readWhole⟩
  · rw [← hs] at hnames ⊢
    obtain ⟨reply, s', heval⟩ :=
      quiet_handleControlCommand (fileHost fs localTime utc) t line s wire
    have hreply : SelfDelimiting reply := command_selfDelimiting hnamed hline hnames heval
    refine ⟨reply, s', heval, hreply.readWhole, fun hverb => ?_⟩
    rw [handleControlCommand_status hverb, eval_controlStatus] at heval
    have htext : _ = reply := congrArg Prod.fst (Option.some.inj heval)
    rw [← htext]
    refine ⟨_, status_parsed ?_ _, rowsOf_reports s.server⟩
    intro r hr
    obtain ⟨row, hrow, rfl⟩ := List.mem_map.mp hr
    exact hnames row.1 row.2 (mem_mountedRows.mp hrow)

theorem answer_plain : PlainErrors FileEff.answer where
  openFile := by
    intro path write f e h
    cases hpath : f.paths path with
    | some i =>
      simp [FileEff.answer, hpath] at h
    | none =>
      simp only [FileEff.answer, hpath] at h
      cases h
      decide
  metadataLen := by
    intro handle f e h
    cases h

/-- A host with an unchanging clock. -/
def stillHost : Host DskFile Files :=
  fileHost FileEff.answer (fun _ => none) fun _ => ⟨1970, 1, 1, 0, 0, 0⟩

/-! ## Section 9: A reply with rows -/

/-- A peer with the lines and the bytes that it will send. -/
abbrev Sender : Type := List Text × List UInt8

def Sender.answer : (i : Io) → Sender → Poll i.Res × Sender
  | .nextLine, (line :: lines, bytes) => (.ready (.ok (some line)), (lines, bytes))
  | .readExact n, (lines, bytes) =>
    if h : n ≤ bytes.length then
      (.ready (.ok (takeVector n bytes h)), (lines, bytes.drop n))
    else (.pending, (lines, bytes))
  | .writeAll _, p => (.ready (.ok ()), p)
  | _, p => (.pending, p)

def senders : Answers DskFile Files (Tid → Sender) where
  net := fun t i n => (((n t).answer i).1, Function.update n t ((n t).answer i).2)
  sys := stillHost

/-- Two sectors in a file whose name looks like a reply. -/
def quotedFile : Files where
  paths  := fun path => if path = str "OK x" then some 0 else none
  bytes  := fun _ => List.replicate 512 0
  opened := 0
  inode  := fun _ => 0
  cursor := fun _ => 0

/-- A client mounts the file, and a guest opens channel 3 and writes to it. -/
def quotedPeers : Tid → Sender
  | .control _ => ([str "MOUNT 7 OK x"], [])
  | .guest _ => ([], [0x45, 0x03, 0xC3, 0x03, 0x41])
  | _ => ([], [])

abbrev quotedEnv : Env DskFile Files (Tid → Sender) := withHost senders.env stillHost

abbrev quotedSystem : Runtime Tid (Eff DskFile) Eff.Res (World DskFile Files (Tid → Sender)) Exit :=
  @system DskFile Files (Tid → Sender) _ asciiTables quotedEnv

def quotedStart : SysConfig DskFile Files (Tid → Sender) :=
  Config.initial (World.initial (Server.new DskFile) quotedFile quotedPeers)

def quotedTurns : List Tid :=
  List.replicate 7 (Tid.control 0) ++ List.replicate 13 (Tid.guest 0)

def quotedState : SysConfig DskFile Files (Tid → Sender) :=
  schedule quotedSystem senders.poll Answers.start quotedStart quotedTurns

def quotedReply : Text :=
  str "drive 7 2 OK x\nvserial 3 open inbox=1 outbox=0\nOK\n"

theorem start_quoted (t : Tid) (w : World DskFile Files (Tid → Sender))
    (h : Answers.start t w = true) : mayStart quotedEnv t w :=
  Answers.mayStart_of_start trivial h

/-- The line that a step reads. -/
def lineRead : SysLabel DskFile → Option Text
  | (_, ⟨.io .nextLine, .ok line⟩) => line
  | _ => none

/-- Whether all lines that a run reads are lines can be checked after it. -/
theorem Run.readsLines {rt : Runtime Tid (Eff DskFile) Eff.Res (World DskFile F N) Exit}
    {c₀ c : SysConfig DskFile F N} {tr : List (SysLabel DskFile)} (h : Run rt anyStep c₀ tr c)
    (hlines : tr.all (fun l => (lineRead l).all fun line => '\n' ∉ line) = true) :
    Run rt DriveWire.readsLines c₀ tr c := by
  apply h.meets
  rintro ⟨t, ev⟩ hl line (rfl : ev = _)
  have hline := List.all_eq_true.mp hlines _ hl
  exact of_decide_eq_true hline

def quotedLabels : List (SysLabel DskFile) :=
  scheduleLabels quotedSystem senders.poll Answers.start quotedStart quotedTurns

set_option maxRecDepth 100000 in
theorem quotedLabels_lines :
    quotedLabels.all (fun l => (lineRead l).all fun line => '\n' ∉ line) = true := rfl

theorem quoted_run : Run quotedSystem readsLines quotedStart quotedLabels quotedState := by
  have hnet : ∀ t i n, quotedEnv.net t i n (senders.net t i n).1 (senders.net t i n).2 :=
    fun _ _ _ => ⟨rfl, rfl⟩
  have hrun : Run quotedSystem anyStep quotedStart quotedLabels quotedState :=
    run_schedule (senders.poll_spec_in hnet fun _ _ _ => .inr ⟨rfl, rfl⟩) start_quoted quotedStart
      quotedTurns (scheduleMeets_any _ _)
  exact Run.readsLines hrun quotedLabels_lines

/-- The server that the run has reached, for a session without a transport. -/
def quotedAlone : State DskFile Files where
  server := quotedState.world.server
  notify := fun _ => .new
  sys    := quotedState.world.sys

set_option maxRecDepth 100000 in
theorem quoted_eval : ((@handleControlCommand DskFile _ asciiTables (str "STATUS")).eval
    (answer stillHost false (.control 1)) (quotedAlone.world ⟨[], []⟩)).map Prod.fst =
      some quotedReply := rfl

/-- The reply to STATUS after this run: the file's name is not taken for the
    end of it, and the rows are read back. -/
theorem control_reply_quoted :
    Run quotedSystem readsLines quotedStart quotedLabels quotedState ∧
    (∃ s', (@handleControlCommand DskFile _ asciiTables (str "STATUS")).eval
      (answer stillHost false (.control 1)) (quotedAlone.world ⟨[], []⟩) =
        some (quotedReply, State.world s' ⟨[], []⟩)) ∧
    ReadWhole quotedReply ∧ ∃ rows, (readLines quotedReply).mapM parseRow = some (rows ++ [.ok]) ∧
      Reports quotedState.world.server rows := by
  obtain ⟨-, hreply⟩ := @control_reply asciiTables Files (Tid → Sender) FileEff.answer answer_plain
    (fun _ => none) (fun _ => ⟨1970, 1, 1, 0, 0, 0⟩) senders.env quotedFile quotedPeers
    quotedLabels quotedState quoted_run
  obtain ⟨reply, s', heval, hwhole, hstatus⟩ :=
    hreply (str "STATUS") (by decide) (.control 1) quotedAlone ⟨[], []⟩ rfl
  have htext : some reply = some quotedReply := by
    rw [← quoted_eval]
    exact (congrArg (Option.map Prod.fst) heval).symm
  obtain rfl := Option.some_inj.mp htext
  exact ⟨quoted_run, ⟨s', heval⟩, hwhole, hstatus (by decide)⟩

end DriveWire
