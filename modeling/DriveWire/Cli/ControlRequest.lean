import DriveWire.Server.ControlSession

/-! # The Client of the Control Socket

    `control_request` of the client: it sends one command, and reads lines
    until one of them is terminal.  Nothing else tells it where a reply ends. -/

namespace DriveWire.Cli

/-! ## Section 1: The code -/

/-- `str::trim_end` -/
def trimEnd (s : Text) : Text := s.rdropWhile isWhitespace

/-- What one call of `read_line` after the other returns: the lines of a text,
    each with its line feed. -/
def readLines : Text → List Text
  | [] => []
  | c :: rest =>
    if c = '\n' then ['\n'] :: readLines rest
    else
      match readLines rest with
      | [] => [[c]]
      | line :: lines => (c :: line) :: lines

/-- The test for a terminal line. -/
def isTerminal (line : Text) : Bool :=
  let trimmed := trimEnd line
  trimmed = str "OK" || (str "OK ").isPrefixOf trimmed || (str "ERROR").isPrefixOf trimmed ||
    (str "BYE").isPrefixOf trimmed

/-- The loop of `control_request`, on the lines that arrive. -/
def requestLoop : List Text → Text → Text
  | [], out => out
  | line :: lines, out => if isTerminal line then out ++ line else requestLoop lines (out ++ line)

/-- What `control_request` returns when the server sends `received`. -/
def controlRequest (received : Text) : Text := requestLoop (readLines received) []

/-! ## Section 2: Replies that delimit themselves -/

/-- Lines without their line feeds, as one text. -/
def unlines (lines : List Text) : Text := lines.flatMap fun line => line ++ ['\n']

theorem readLines_line {line : Text} (h : '\n' ∉ line) (rest : Text) :
    readLines (line ++ '\n' :: rest) = (line ++ ['\n']) :: readLines rest := by
  induction line with
  | nil => exact if_pos rfl
  | cons c line ih =>
    rw [List.mem_cons, not_or] at h
    rw [List.cons_append, readLines, if_neg (Ne.symm h.1), ih h.2]
    rfl

theorem readLines_unlines {lines : List Text} (h : ∀ line ∈ lines, '\n' ∉ line) (rest : Text) :
    readLines (unlines lines ++ rest) =
      (lines.map fun line => line ++ ['\n']) ++ readLines rest := by
  induction lines with
  | nil => rfl
  | cons line lines ih =>
    have hline := h line List.mem_cons_self
    have ih := ih fun l hl => h l (List.mem_cons_of_mem _ hl)
    show readLines ((line ++ ['\n'] ++ unlines lines) ++ rest) = _
    rw [List.append_assoc, List.append_assoc, List.singleton_append, readLines_line hline, ih]
    rfl

/-- Some lines that are not terminal, and then one that is. -/
structure Delimited (lines : List Text) (last : Text) : Prop where
  whole    : ∀ line ∈ lines, '\n' ∉ line
  goesOn   : ∀ line ∈ lines, isTerminal (line ++ ['\n']) = false
  wholeEnd : '\n' ∉ last
  terminal : isTerminal (last ++ ['\n']) = true

/-- The text of a reply. -/
def replyText (lines : List Text) (last : Text) : Text := unlines lines ++ (last ++ ['\n'])

theorem Delimited.readLines {lines : List Text} {last : Text} (h : Delimited lines last)
    (more : Text) : readLines (replyText lines last ++ more) =
      (lines.map fun line => line ++ ['\n']) ++ (last ++ ['\n']) :: readLines more := by
  rw [replyText, List.append_assoc, readLines_unlines h.whole, List.append_assoc,
    List.singleton_append, readLines_line h.wholeEnd]

theorem requestLoop_open {lines : List Text}
    (h : ∀ line ∈ lines, isTerminal (line ++ ['\n']) = false) (rest : List Text) (out : Text) :
    requestLoop ((lines.map fun line => line ++ ['\n']) ++ rest) out =
      requestLoop rest (out ++ unlines lines) := by
  induction lines generalizing out with
  | nil => rw [unlines, List.flatMap_nil, List.append_nil]; rfl
  | cons line lines ih =>
    have hline := h line List.mem_cons_self
    have ih := ih (fun l hl => h l (List.mem_cons_of_mem _ hl)) (out ++ (line ++ ['\n']))
    rw [List.append_assoc] at ih
    rw [List.map_cons, List.cons_append, requestLoop, hline, if_neg Bool.false_ne_true]
    exact ih

/-- **The client returns the whole reply**, whatever follows it. -/
theorem Delimited.controlRequest {lines : List Text} {last : Text} (h : Delimited lines last)
    (more : Text) :
    controlRequest (replyText lines last ++ more) = replyText lines last := by
  rw [Cli.controlRequest, h.readLines, requestLoop_open h.goesOn, requestLoop, h.terminal,
    if_pos rfl]
  rfl

/-! ## Section 3: Which lines are terminal -/

/-- Trimming keeps what stands before a character that is not white space. -/
theorem trimEnd_append {c : Char} (hc : isWhitespace c = false) (s t : Text) :
    trimEnd (s ++ c :: t) = s ++ c :: trimEnd t := by
  have hsingle : [c].rdropWhile isWhitespace = [c] := by
    rw [List.rdropWhile_singleton, hc]
    rfl
  have hcons : (c :: t).rdropWhile isWhitespace = c :: t.rdropWhile isWhitespace := by
    have happend := rdropWhile_append (p := isWhitespace) [c] t
    rw [hsingle] at happend
    by_cases hblank : t.rdropWhile isWhitespace = []
    · rw [if_pos hblank] at happend
      rw [hblank]
      exact happend
    · rw [if_neg hblank] at happend
      exact happend
  rw [trimEnd, rdropWhile_append, hcons, if_neg (List.cons_ne_nil _ _)]
  rfl

/-- A line that begins like this is terminal, whatever follows. -/
theorem isTerminal_of_head {head : Text} {c : Char} (hc : isWhitespace c = false)
    (hhead : (str "OK ").isPrefixOf (head ++ [c]) = true ∨
      (str "ERROR").isPrefixOf (head ++ [c]) = true ∨ (str "BYE").isPrefixOf (head ++ [c]) = true)
    (rest : Text) : isTerminal (head ++ c :: rest) = true := by
  have hextend : ∀ p : Text, p.isPrefixOf (head ++ [c]) = true →
      p.isPrefixOf (head ++ c :: trimEnd rest) = true := by
    intro p hp
    rw [List.isPrefixOf_iff_prefix] at hp ⊢
    have hlonger : head ++ [c] <+: head ++ c :: trimEnd rest := ⟨trimEnd rest, by simp⟩
    exact hp.trans hlonger
  rw [isTerminal, trimEnd_append hc]
  rcases hhead with h | h | h
  · simp [hextend _ h]
  · simp [hextend _ h]
  · simp [hextend _ h]

/-- A line is not terminal if it begins with another letter. -/
theorem isTerminal_of_letter {c : Char} (hc : isWhitespace c = false) (hO : c ≠ 'O') (hE : c ≠ 'E')
    (hB : c ≠ 'B') (rest : Text) : isTerminal (c :: rest) = false := by
  have htrim : trimEnd (c :: rest) = c :: trimEnd rest := trimEnd_append hc [] rest
  rw [isTerminal, htrim]
  simp [str, List.isPrefixOf, hO.symm, hE.symm, hB.symm, hO]

end DriveWire.Cli
