import DriveWire.Server.ControlAtomic

/-! # What `dw mount` Makes the Server Do

    The command line client puts the path into one line of text, unquoted.
    The server splits what it receives into lines, trims each, and splits it
    at white space.  Section 3 says for which paths the server opens the file
    that the user named. -/

namespace DriveWire

open Async Server

/-! ## Section 1: The session on a text -/

/-- A line without the carriage return before its line feed. -/
def stripCr (line : Text) : Text :=
  if line.getLast? = some '\r' then line.dropLast else line

/-- `AsyncBufReadExt::lines`, with a part of a line already read. -/
def linesFrom (read : Text) : Text → List Text
  | [] => if read = [] then [] else [read]
  | c :: rest =>
    if c = '\n' then stripCr read :: linesFrom [] rest else linesFrom (read ++ [c]) rest

/-- The lines of a text. -/
def linesOf (text : Text) : List Text := linesFrom [] text

variable {D : Type}

section session

variable [VDisk D] [UnicodeTables]

namespace Server

/-- `handle_control` on a stream with the given lines and then its end. -/
def handleControl : List Text → Code D Exit
  | [] => controlLine (.ok none) >>= fun
    | .again => return .control (.ok ())
    | .done x => return x
  | line :: rest => controlLine (.ok (some line)) >>= fun
    | .again => handleControl rest
    | .done x => return x

/-- Sending a reply, and going on with the session unless it is over. -/
def sendReply (response : Text) (rest : Code D Exit) : Code D Exit := do
  match ← await (.io (.writeAll (String.ofList response).toUTF8.toList)) with
  | .error e => return .control (.error e)
  | .ok () => if (str "BYE").isPrefixOf response then return .control (.ok ()) else rest

/-- A line that is not blank is a command. -/
theorem handleControl_cons {line : Text} (h : trim line ≠ []) (rest : List Text) :
    handleControl (D := D) (line :: rest) = handleControlCommand (trim line) >>= fun response =>
      sendReply response (handleControl rest) := by
  rw [handleControl, controlLine, if_neg h, bind_assoc]
  refine congrArg _ (funext fun response => ?_)
  refine congrArg (Prog.eff _) (funext fun r => ?_)
  cases r with
  | error e => rfl
  | ok u =>
    show (if (str "BYE").isPrefixOf response then _ else _ : Code D (Flow Exit)) >>= _ =
      if (str "BYE").isPrefixOf response then _ else _
    split <;> rfl

omit [VDisk D] [UnicodeTables] in
/-- The reply to MOUNT. -/
def mountReply (slot : UInt8) : Except VDiskError (UInt32 × Text) → Text
  | .ok (sectors, name) =>
    str "OK mounted slot " ++ decimal slot.toNat ++ str " sectors=" ++ decimal sectors.toNat ++
      str " path=" ++ name ++ str "\n"
  | .error e => str "ERROR mount failed: " ++ e.display ++ str "\n"

theorem controlMount_eq {field : Text} {slot : UInt8} (h : parseU8 field = some slot)
    (path : Text) (rest : List Text) :
    controlMount (D := D) (field :: path :: rest) =
      mountDsk slot path false >>= fun r => return mountReply slot r := by
  rw [controlMount, h]
  show mountDsk slot path false >>= _ = mountDsk slot path false >>= _
  refine congrArg _ (funext fun r => ?_)
  cases r <;> rfl

end Server

end session

/-! ## Section 2: Lines and fields -/

theorem linesFrom_line {line : Text} (h : '\n' ∉ line) (read rest : Text) :
    linesFrom read (line ++ '\n' :: rest) = stripCr (read ++ line) :: linesFrom [] rest := by
  induction line generalizing read with
  | nil => simp [linesFrom]
  | cons c line ih =>
    rw [List.mem_cons, not_or] at h
    rw [List.cons_append, linesFrom, if_neg (Ne.symm h.1), ih h.2, List.append_assoc]
    rfl

theorem trim_eq (s : Text) : trim s = (s.dropWhile isWhitespace).rdropWhile isWhitespace := rfl

theorem trim_append_whitespace (s : Text) {c : Char} (hc : isWhitespace c = true) :
    trim (s ++ [c]) = trim s := by
  rw [trim_eq, trim_eq, List.dropWhile_append]
  split
  · rename_i hblank
    rw [List.isEmpty_iff.mp hblank, List.dropWhile_cons_of_pos hc]
    rfl
  · rw [List.rdropWhile_concat_pos _ _ _ hc]

/-- The carriage return would be trimmed anyway. -/
theorem trim_stripCr (line : Text) : trim (stripCr line) = trim line := by
  unfold stripCr
  split
  · rename_i hcr
    have hne : line ≠ [] := by
      rintro rfl
      cases hcr
    have hlast : line.getLast hne = '\r' := by
      rw [List.getLast?_eq_some_getLast hne] at hcr
      exact Option.some_inj.mp hcr
    have hline := List.dropLast_append_getLast hne
    rw [hlast] at hline
    rw [← trim_append_whitespace line.dropLast (c := '\r') (by decide), hline]
  · rfl

theorem rdropWhile_append {p : Char → Bool} (s t : Text) :
    (s ++ t).rdropWhile p =
      if t.rdropWhile p = [] then s.rdropWhile p else s ++ t.rdropWhile p := by
  rw [List.rdropWhile, List.reverse_append, List.dropWhile_append]
  simp only [List.rdropWhile, List.isEmpty_iff, List.reverse_eq_nil_iff]
  split
  · rfl
  · rw [List.reverse_append, List.reverse_reverse]

theorem splitn_cons {p : Char → Bool} {field : Text} (hfield : ∀ c ∈ field, p c = false)
    {sep : Char} (hsep : p sep = true) (n : Nat) (rest : Text) :
    splitn p (n + 2) (field ++ sep :: rest) = field :: splitn p (n + 1) rest := by
  have hdrop : (field ++ sep :: rest).dropWhile (fun c => !p c) = sep :: rest := by
    rw [List.dropWhile_append_of_pos fun c hc => by simp [hfield c hc]]
    simp [hsep]
  have htake : (field ++ sep :: rest).takeWhile (fun c => !p c) = field := by
    rw [List.takeWhile_append_of_pos fun c hc => by simp [hfield c hc]]
    simp [hsep]
  rw [splitn, hdrop]
  exact congrArg (· :: _) htake

theorem splitn_last {p : Char → Bool} {field : Text} (hfield : ∀ c ∈ field, p c = false)
    (n : Nat) : splitn p (n + 1) field = [field] := by
  cases n with
  | zero => rfl
  | succ n =>
    have hdrop : field.dropWhile (fun c => !p c) = [] := by
      rw [List.dropWhile_eq_nil_iff]
      intro c hc
      simp [hfield c hc]
    rw [splitn, hdrop]

/-- A slot is read back. -/
theorem parseU8_decimal (slot : UInt8) : parseU8 (decimal slot.toNat) = some slot := by
  have h : ∀ n : Fin 256, parseU8 (decimal n.val) = some (UInt8.ofFin n) := by decide +kernel
  simpa using h slot.toFin

theorem digit_plain {c : Char} (h : c.isDigit = true) : isWhitespace c = false ∧ c ≠ '\n' := by
  have hrange : 48 ≤ c.toNat ∧ c.toNat ≤ 57 := by
    simp [Char.isDigit, UInt32.le_iff_toNat_le] at h
    exact h
  constructor
  · simp [isWhitespace]
    omega
  · rintro rfl
    exact absurd hrange.1 (by decide)

theorem decimal_plain (n : Nat) : ∀ c ∈ decimal n, isWhitespace c = false ∧ c ≠ '\n' :=
  fun _ hc => digit_plain (Nat.isDigit_of_mem_toDigits (by decide) (by decide) hc)

/-! ## Section 3: The request of `dw mount` -/

/-- The verb and the slot of a MOUNT line. -/
def mountHead (slot : UInt8) : Text := str "MOUNT" ++ ' ' :: decimal slot.toNat

/-- The text that `mount` of the client sends. -/
def mountRequest (slot : UInt8) (path : Text) : Text :=
  str "MOUNT " ++ decimal slot.toNat ++ str " " ++ path ++ str "\n"

theorem mountRequest_eq (slot : UInt8) (path : Text) :
    mountRequest slot path = mountHead slot ++ ' ' :: path ++ ['\n'] := by
  simp [mountRequest, mountHead, str]

theorem mountHead_newline (slot : UInt8) : '\n' ∉ mountHead slot := by
  intro h
  rw [mountHead, List.mem_append, List.mem_cons] at h
  rcases h with h | h | h
  · exact absurd h (by decide)
  · exact absurd h (by decide)
  · exact (decimal_plain _ _ h).2 rfl

/-- What is left of a MOUNT line after trimming. -/
theorem trim_mountHead (slot : UInt8) (p : Text) :
    trim (mountHead slot ++ ' ' :: p) =
      if p.rdropWhile isWhitespace = [] then mountHead slot
      else mountHead slot ++ ' ' :: p.rdropWhile isWhitespace := by
  have hne : decimal slot.toNat ≠ [] := Nat.toDigits_ne_nil
  have hhead : (mountHead slot).rdropWhile isWhitespace = mountHead slot := by
    rw [List.rdropWhile_eq_self_iff]
    intro hmount
    have hlast : (mountHead slot).getLast hmount = (decimal slot.toNat).getLast hne := by
      simp [mountHead, List.getLast_cons hne]
    rw [hlast, (decimal_plain _ _ (List.getLast_mem hne)).1]
    exact Bool.false_ne_true
  have hdrop : (mountHead slot ++ ' ' :: p).dropWhile isWhitespace = mountHead slot ++ ' ' :: p :=
    List.dropWhile_cons_of_neg (by decide)
  have hspace : (' ' :: p).rdropWhile isWhitespace =
      if p.rdropWhile isWhitespace = [] then [] else ' ' :: p.rdropWhile isWhitespace :=
    rdropWhile_append [' '] p
  rw [trim_eq, hdrop, rdropWhile_append, hspace]
  split
  · rw [if_pos rfl, hhead]
  · rw [if_neg (List.cons_ne_nil _ _)]

theorem mount_plain : ∀ c ∈ str "MOUNT", isWhitespace c = false := by
  have hmount : str "MOUNT" = ['M', 'O', 'U', 'N', 'T'] := rfl
  intro c hc
  simp only [hmount, List.mem_cons, List.not_mem_nil, or_false] at hc
  rcases hc with rfl | rfl | rfl | rfl | rfl <;> rfl

theorem handleControlCommand_mount [VDisk D] [UnicodeTables] {line : Text} {fields : List Text}
    (h : splitn isWhitespace 3 line = str "MOUNT" :: fields) :
    handleControlCommand (D := D) line = controlMount fields := by
  have hverb : toAsciiUppercase (str "MOUNT") = str "MOUNT" := by decide
  rw [handleControlCommand, h]
  exact if_pos hverb

theorem splitn_mountHead (slot : UInt8) :
    splitn isWhitespace 3 (mountHead slot) = [str "MOUNT", decimal slot.toNat] := by
  have hplain : ∀ c ∈ decimal slot.toNat, isWhitespace c = false :=
    fun c hc => (decimal_plain _ c hc).1
  rw [mountHead, splitn_cons mount_plain rfl, splitn_last hplain]

theorem splitn_mountLine (slot : UInt8) (path : Text) :
    splitn isWhitespace 3 (mountHead slot ++ ' ' :: path) =
      [str "MOUNT", decimal slot.toNat, path] := by
  have hplain : ∀ c ∈ decimal slot.toNat, isWhitespace c = false :=
    fun c hc => (decimal_plain _ c hc).1
  rw [mountHead, List.append_assoc, List.cons_append, splitn_cons mount_plain rfl,
    splitn_cons hplain rfl]
  rfl

/-- The first line of a request, and what the server makes of it. -/
theorem handleControl_mount [VDisk D] [UnicodeTables] (slot : UInt8) {p : Text} (hp : '\n' ∉ p)
    (rest : Text) :
    handleControl (D := D) (linesOf (mountHead slot ++ ' ' :: p ++ '\n' :: rest)) =
      if p.rdropWhile isWhitespace = [] then
        sendReply (str "ERROR usage: MOUNT <slot> <path>\n") (handleControl (linesOf rest))
      else mountDsk slot (p.rdropWhile isWhitespace) false >>= fun r =>
        sendReply (mountReply slot r) (handleControl (linesOf rest)) := by
  have hline : '\n' ∉ mountHead slot ++ ' ' :: p := by
    rw [List.mem_append, List.mem_cons]
    rintro (h | h | h)
    · exact mountHead_newline slot h
    · exact absurd h (by decide)
    · exact hp h
  have htrim := trim_stripCr (mountHead slot ++ ' ' :: p)
  rw [trim_mountHead] at htrim
  rw [linesOf, linesFrom_line hline, List.nil_append]
  -- a path of blanks is trimmed away, and then the third field is missing
  split
  · rename_i hblank
    rw [if_pos hblank] at htrim
    rw [handleControl_cons (by rw [htrim]; exact List.cons_ne_nil _ _), htrim,
      handleControlCommand_mount (splitn_mountHead slot)]
    rfl
  · rename_i hpath
    rw [if_neg hpath] at htrim
    rw [handleControl_cons (by rw [htrim]; exact List.cons_ne_nil _ _), htrim,
      handleControlCommand_mount (splitn_mountLine slot _), controlMount_eq (parseU8_decimal slot),
      bind_assoc]
    rfl

/-- The server executes one command, and that is `mount_dsk` on the slot and
    the path of the user. -/
def MountsExactly (D : Type) [VDisk D] [UnicodeTables] (slot : UInt8) (path : Text) : Prop :=
  handleControl (D := D) (linesOf (mountRequest slot path)) =
    mountDsk slot path false >>= fun r =>
      sendReply (mountReply slot r) (return .control (.ok ()))

/-- The first effect of some code. -/
def firstEff : Code D Exit → Option (Eff D)
  | .ret _ => none
  | .eff e _ => some e

/-- The path has no line feed and does not end in white space. -/
def Plain (path : Text) : Prop :=
  '\n' ∉ path ∧ ∀ c, path.getLast? = some c → isWhitespace c = false

theorem mountsExactly_of_plain [VDisk D] [UnicodeTables] (slot : UInt8) {path : Text}
    (hpath : path ≠ []) (h : Plain path) : MountsExactly D slot path := by
  have htrim : path.rdropWhile isWhitespace = path := by
    rw [List.rdropWhile_eq_self_iff]
    intro hne
    rw [h.2 _ (List.getLast?_eq_some_getLast hne)]
    exact Bool.false_ne_true
  have hrun := handleControl_mount (D := D) slot h.1 []
  rw [← mountRequest_eq, htrim, if_neg hpath] at hrun
  exact hrun

/-- A request begins with one line, that of the path up to a line feed. -/
theorem exists_first_line (path : Text) : ∃ p rest, '\n' ∉ p ∧
    path ++ ['\n'] = p ++ '\n' :: rest ∧ ('\n' ∉ path → p = path) := by
  by_cases hnl : '\n' ∈ path
  · obtain ⟨p, rest, hsplit, hp⟩ := List.eq_append_cons_of_mem hnl
    refine ⟨p, rest ++ ['\n'], hp, ?_, fun h => absurd hnl h⟩
    rw [hsplit, List.append_assoc]
    rfl
  · exact ⟨path, [], hnl, rfl, fun _ => rfl⟩

theorem plain_of_mountsExactly [VDisk D] [UnicodeTables] {slot : UInt8} {path : Text}
    (hpath : path ≠ []) (h : MountsExactly D slot path) : Plain path := by
  obtain ⟨p, rest, hp, hrequest, hwhole⟩ := exists_first_line path
  have hrun := handleControl_mount (D := D) slot hp rest
  rw [List.append_assoc, List.cons_append, ← hrequest, ← List.cons_append, ← List.append_assoc,
    ← mountRequest_eq] at hrun
  rw [MountsExactly, hrun] at h
  have hfirst := congrArg firstEff h
  split at hfirst
  · cases hfirst
  · have hopen : p.rdropWhile isWhitespace = path := by
      injection hfirst with heff
      injection heff with hsys
      injection hsys
    -- the path is a part of the first line, so it is all of it
    have hprefix : path <+: p := by
      have hp := List.rdropWhile_prefix (p := isWhitespace) p
      rwa [hopen] at hp
    have hnl : '\n' ∉ path := fun hmem => hp (List.IsPrefix.subset hprefix hmem)
    rw [hwhole hnl] at hopen
    refine ⟨hnl, fun c hc => ?_⟩
    have hlast := List.rdropWhile_eq_self_iff.mp hopen hpath
    rw [List.getLast?_eq_some_getLast hpath, Option.some_inj] at hc
    rw [hc] at hlast
    exact eq_false_of_ne_true hlast

/-- **Which file is mounted.** The server mounts the file that the user has
    named exactly if the path has no line feed and does not end in white
    space. -/
theorem mounts_exactly_iff (D : Type) [VDisk D] [UnicodeTables] (slot : UInt8) (path : Text)
    (hpath : path ≠ []) :
    MountsExactly D slot path ↔
      '\n' ∉ path ∧ ∀ c, path.getLast? = some c → isWhitespace c = false :=
  ⟨plain_of_mountsExactly hpath, mountsExactly_of_plain slot hpath⟩

theorem mounts_exactly_iff_spaces :
    @MountsExactly Unit noDisk asciiTables 1 (str " my games.dsk") ↔
      '\n' ∉ str " my games.dsk" ∧
        ∀ c, (str " my games.dsk").getLast? = some c → isWhitespace c = false :=
  @mounts_exactly_iff Unit noDisk asciiTables 1 (str " my games.dsk") (List.cons_ne_nil _ _)

/-- The name of a file that ends in a blank, of which another file is opened. -/
theorem mounts_another : ¬ ∀ (D : Type) [VDisk D] [UnicodeTables] (slot : UInt8) (path : Text),
    path ≠ [] → MountsExactly D slot path := by
  intro h
  have hmounts := @h Unit noDisk asciiTables 0 (str "disk ") (List.cons_ne_nil _ _)
  have hplain := @plain_of_mountsExactly Unit noDisk asciiTables 0 (str "disk ")
    (List.cons_ne_nil _ _) hmounts
  exact absurd (hplain.2 ' ' rfl) (by decide)

end DriveWire
