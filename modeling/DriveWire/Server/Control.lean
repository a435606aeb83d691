import DriveWire.Server.Attach

/-! # Control Sessions

    The line-based control protocol: MOUNT, UNMOUNT, STATUS and QUIT, with
    the text functions of the standard library that it goes through. -/

namespace DriveWire

open Async

/-! ## Section 1: Text -/

/-- `char::is_whitespace`: the code points with the White_Space property. -/
def isWhitespace (c : Char) : Bool :=
  let n := c.toNat
  (0x09 ≤ n && n ≤ 0x0D) || n = 0x20 || n = 0x85 || n = 0xA0 || n = 0x1680 ||
    (0x2000 ≤ n && n ≤ 0x200A) || n = 0x2028 || n = 0x2029 || n = 0x202F ||
    n = 0x205F || n = 0x3000

/-- `str::trim` -/
def trim (s : Text) : Text :=
  ((s.dropWhile isWhitespace).reverse.dropWhile isWhitespace).reverse

/-- `str::splitn(n, p)`: at most `n` parts, the last one unsplit. -/
def splitn (p : Char → Bool) : Nat → Text → List Text
  | 0, _ => []
  | 1, s => [s]
  | n + 2, s =>
    match s.dropWhile (fun c => !p c) with
    | [] => [s]
    | _ :: rest => s.takeWhile (fun c => !p c) :: splitn p (n + 1) rest

/-- `str::to_ascii_uppercase` -/
def toAsciiUppercase (s : Text) : Text := s.map Char.toUpper

/-- One more decimal digit, unless it overflows a `u8`. -/
def parseDigit (acc : Nat) (c : Char) : Option Nat :=
  if c.isDigit ∧ acc * 10 + (c.toNat - 48) < 256 then some (acc * 10 + (c.toNat - 48)) else none

/-- The digits that `u8::from_str` reads: a plus sign before them is allowed. -/
def unsignedDigits : Text → Text
  | '+' :: c :: rest => c :: rest
  | s => s

/-- `str::parse::<u8>` -/
def parseU8 (s : Text) : Option UInt8 :=
  match unsignedDigits s with
  | [] => none
  | digits => (digits.foldlM parseDigit 0).map UInt8.ofNat

/-- `Display` of an unsigned integer. -/
def decimal (n : Nat) : Text := Nat.toDigits 10 n

/-- The two tables that `char::escape_debug` looks a character up in. -/
class UnicodeTables where
  graphemeExtended : Char → Bool
  printable        : Char → Bool

/-- `char::escape_debug`, as `Debug` for `str` calls it. -/
def escapeDebug [UnicodeTables] (c : Char) : Text :=
  if c = '\x00' then str "\\0"
  else if c = '\t' then str "\\t"
  else if c = '\r' then str "\\r"
  else if c = '\n' then str "\\n"
  else if c = '\\' then str "\\\\"
  else if c = '"' then str "\\\""
  else if UnicodeTables.printable c && !UnicodeTables.graphemeExtended c then [c]
  else str "\\u\x7b" ++ Nat.toDigits 16 c.toNat ++ str "\x7d"

/-- `Debug` for `str` -/
def debugStr [UnicodeTables] (s : Text) : Text := str "\"" ++ s.flatMap escapeDebug ++ str "\""

/-- `Display` for `VDiskError` -/
def VDiskError.display : VDiskError → Text
  | .outOfRange lsn => str "sector Lsn(" ++ decimal lsn.val.toNat ++ str ") out of range"
  | .readOnly => str "read-only disk"
  | .io e => str "i/o: " ++ e.message

namespace Server

variable {D : Type}

/-! ## Section 2: Summaries and mounting -/

/-- `mount` -/
def mount (slot : UInt8) (disk : D) : Code D Unit := guarded .exclusive (.driveInsert slot disk)

/-- `unmount` -/
def unmount (slot : UInt8) : Code D Unit := guarded .exclusive (.driveRemove slot)

variable [VDisk D]

/-- `drive_summary` -/
def driveSummary : Code D (List (UInt8 × Text × UInt32)) := do
  let rows ← guarded .shared .driveRows
  return rows.map fun r => (r.1, VDisk.name r.2, VDisk.sectorCount r.2)

omit [VDisk D] in
/-- `vserial_summary`: the guard of the inbox is still alive when the outbox
    is locked. -/
def vserialSummary : Code D (List (Channel × Bool × Nat × Nat)) := do
  let opens ← guarded .exclusive .openClone
  withLock .vserialInbox .exclusive do
    withLock .vserialOutbox .exclusive do
      let inboxes ← await (.op .inboxLens)
      let outboxes ← await (.op .outboxLens)
      return (List.finRange vserialChannels).map fun i => (i, opens i, inboxes i, outboxes i)

/-- `mount_dsk` -/
def mountDsk (slot : UInt8) (path : Text) (readOnly : Bool) :
    Code D (Except VDiskError (UInt32 × Text)) := do
  match ← await (.sys (.diskOpen path readOnly)) with
  | .ok disk =>
    -- the table changes only when the image could be opened
    mount slot disk
    return .ok (VDisk.sectorCount disk, VDisk.name disk)
  | .error e => return .error e

/-! ## Section 3: Commands -/

variable [UnicodeTables]

/-- The reply to a slot that is not a `u8`. -/
def badSlot (slot : Text) : Text :=
  str "ERROR slot must be a u8 (got " ++ debugStr slot ++ str ")\n"

/-- The MOUNT arm of `handle_control_command`, on the fields after the verb. -/
def controlMount : List Text → Code D Text
  -- `splitn` has at most three fields: the path may contain blanks
  | slot :: path :: _ =>
    match parseU8 slot with
    | some n => do
      match ← mountDsk n path false with
      | .ok (sectors, name) =>
        return str "OK mounted slot " ++ decimal n.toNat ++ str " sectors=" ++
          decimal sectors.toNat ++ str " path=" ++ name ++ str "\n"
      | .error e => return str "ERROR mount failed: " ++ e.display ++ str "\n"
    | none => return badSlot slot
  | _ => return str "ERROR usage: MOUNT <slot> <path>\n"

omit [VDisk D] in
/-- The UNMOUNT arm. -/
def controlUnmount : List Text → Code D Text
  | slot :: _ =>
    match parseU8 slot with
    | some n => do
      unmount n
      return str "OK unmounted slot " ++ decimal n.toNat ++ str "\n"
    | none => return badSlot slot
  | [] => return str "ERROR usage: UNMOUNT <slot>\n"

/-- A `drive` line of STATUS. -/
def driveLine (r : UInt8 × Text × UInt32) : Text :=
  str "drive " ++ decimal r.1.toNat ++ str " " ++ decimal r.2.2.toNat ++ str " " ++ r.2.1 ++
    str "\n"

/-- A `vserial` line of STATUS; idle closed channels are left out. -/
def vserialLine (r : Channel × Bool × Nat × Nat) : Text :=
  if r.2.1 ∨ 0 < r.2.2.1 ∨ 0 < r.2.2.2 then
    str "vserial " ++ decimal r.1.val ++ str " " ++ (if r.2.1 then str "open" else str "closed") ++
      str " inbox=" ++ decimal r.2.2.1 ++ str " outbox=" ++ decimal r.2.2.2 ++ str "\n"
  else []

omit [UnicodeTables] in
/-- The STATUS arm. -/
def controlStatus : Code D Text := do
  -- two locks, one after the other: no snapshot of the whole server
  let drives ← driveSummary
  let channels ← vserialSummary
  return drives.flatMap driveLine ++ channels.flatMap vserialLine ++ str "OK\n"

/-- `handle_control_command` -/
def handleControlCommand (line : Text) : Code D Text :=
  match splitn isWhitespace 3 line with
  | [] => return str "ERROR unknown verb: \n"
  | first :: fields =>
    let verb := toAsciiUppercase first
    if verb = str "MOUNT" then controlMount fields
    else if verb = str "UNMOUNT" then controlUnmount fields
    else if verb = str "STATUS" then controlStatus
    else if verb = str "QUIT" then return str "BYE\n"
    else return str "ERROR unknown verb: " ++ verb ++ str "\n"

/-- One iteration of the loop of `handle_control`.  The text is written as
    its UTF-8 encoding. -/
def controlOnce : Code D (Flow Exit) := do
  match ← await (.io .nextLine) with
  | .error e => return .done (.control (.error e))
  | .ok none => return .done (.control (.ok ()))
  | .ok (some line) =>
    -- `continue`: an empty line gets no reply
    if trim line = [] then return .again
    else
      let response ← handleControlCommand (trim line)
      match ← await (.io (.writeAll (String.ofList response).toUTF8.toList)) with
      | .error e => return .done (.control (.error e))
      | .ok () =>
        if (str "BYE").isPrefixOf response then return .done (.control (.ok ()))
        else return .again

/-- One iteration of the loop of `handle_control`, after `next_line`. -/
def controlLine : Except IoError (Option Text) → Code D (Flow Exit)
  | .error e => return .done (.control (.error e))
  | .ok none => return .done (.control (.ok ()))
  | .ok (some line) =>
    if trim line = [] then return .again
    else do
      let response ← handleControlCommand (trim line)
      match ← await (.io (.writeAll (String.ofList response).toUTF8.toList)) with
      | .error e => return .done (.control (.error e))
      | .ok () =>
        if (str "BYE").isPrefixOf response then return .done (.control (.ok ()))
        else return .again

/-- Each iteration of the loop is `controlLine` on the next line. -/
theorem controlOnce_eq : controlOnce (D := D) = .eff (.io .nextLine) controlLine := by
  refine congrArg (Prog.eff _) (funext fun r => ?_)
  rcases r with e | line
  · rfl
  · cases line <;> rfl

end Server

end DriveWire
