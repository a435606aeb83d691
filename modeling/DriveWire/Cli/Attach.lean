import Mathlib.Data.UInt

/-! # The Attach Command

    `dw attach` copies keys to a channel of the server and what the guest
    sends to the terminal, in two tasks.  Keys go through the Ctrl-A escape,
    the guest's bytes through the normalisation of line endings. -/

namespace DriveWire.Cli

abbrev CR : UInt8 := 0x0D
abbrev LF : UInt8 := 0x0A
abbrev ctrlA : UInt8 := 0x01

/-! ## Section 1: Line endings -/

/-- One round of the loop of `normalize_line_endings`, on the output so far
    and `had_cr`. -/
def normalizeByte : List UInt8 × Bool → UInt8 → List UInt8 × Bool
  | (out, hadCr), b =>
    if b = CR then (if hadCr then out ++ [CR, LF] else out, true)
    else if b = LF then (out ++ [CR, LF], false)
    else ((if hadCr then out ++ [CR, LF] else out) ++ [b], false)

def normalizeLineEndings (input : List UInt8) (hadCr : Bool) : List UInt8 × Bool :=
  input.foldl normalizeByte ([], hadCr)

/-! ## Section 2: The escape -/

inductive EscapeAction where
  | proceed : EscapeAction
  | exit    : EscapeAction
  deriving DecidableEq

/-- The action, `escape_armed` and `out` after one input byte. -/
def processInputByte (byte : UInt8) (escapeArmed : Bool) (out : List UInt8) :
    EscapeAction × Bool × List UInt8 :=
  if escapeArmed then
    if byte = ctrlA then (.proceed, false, out ++ [ctrlA])
    else if byte = 0x71 ∨ byte = 0x51 then (.exit, false, out)
    else (.proceed, false, out ++ [ctrlA, byte])
  else if byte = ctrlA then (.proceed, true, out)
  else (.proceed, false, out ++ [byte])

/-- The loop over the bytes of one read, which stops at an exit. -/
def processBuffer : List UInt8 → Bool → List UInt8 → EscapeAction × Bool × List UInt8
  | [], escapeArmed, out => (.proceed, escapeArmed, out)
  | b :: bs, escapeArmed, out =>
    match processInputByte b escapeArmed out with
    | (.proceed, escapeArmed, out) => processBuffer bs escapeArmed out
    | (.exit, escapeArmed, out) => (.exit, escapeArmed, out)

/-! ## Section 3: The copying tasks -/

/-- What one round of a copying loop meets: the bytes that the read returns,
    none at the end of the input or after an error, and whether what is
    written in this round is accepted. -/
structure Round where
  bytes    : List UInt8
  accepted : Bool

inductive CopyEnd where
  | reading : CopyEnd
  | eof     : CopyEnd
  | refused : CopyEnd
  | exited  : CopyEnd
  deriving DecidableEq

/-- What a copying loop has done: the bytes that were accepted, its flag
    (`escape_armed` or `had_cr`), and whether it waits for the next read or
    has ended. -/
structure Copied where
  written : List UInt8
  flag    : Bool
  ended   : CopyEnd
  deriving DecidableEq

/-- The bytes of an earlier round come first. -/
def Copied.after (out : List UInt8) (c : Copied) : Copied :=
  { c with written := out ++ c.written }

/-- `stdin_to_sock`: nothing is written when there is no output. -/
def stdinToSock : List Round → Bool → Copied
  | [], escapeArmed => ⟨[], escapeArmed, .reading⟩
  | ⟨bytes, accepted⟩ :: rounds, escapeArmed =>
    if bytes = [] then ⟨[], escapeArmed, .eof⟩
    else
      match processBuffer bytes escapeArmed [] with
      | (action, escapeArmed, out) =>
        if out ≠ [] ∧ accepted = false then ⟨[], escapeArmed, .refused⟩
        else if action = .exit then ⟨out, escapeArmed, .exited⟩
        else (stdinToSock rounds escapeArmed).after out

/-- `sock_to_stdout`; `translate` is false with `--raw`. -/
def sockToStdout (translate : Bool) : List Round → Bool → Copied
  | [], hadCr => ⟨[], hadCr, .reading⟩
  | ⟨bytes, accepted⟩ :: rounds, hadCr =>
    if bytes = [] then ⟨[], hadCr, .eof⟩
    else
      match (if translate then normalizeLineEndings bytes hadCr else (bytes, hadCr)) with
      | (payload, hadCr) =>
        if accepted = false then ⟨[], hadCr, .refused⟩
        else (sockToStdout translate rounds hadCr).after payload

/-- Reads that return something, with every write accepted. -/
def accepted (reads : List (List UInt8)) : List Round := reads.map fun bytes => ⟨bytes, true⟩

end DriveWire.Cli
