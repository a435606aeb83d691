import DriveWire.Server.Effects

/-! # Guest Sessions

    `Server::run` with its handlers, as programs.  The transport is the
    task's own, so a handler only says how many bytes it reads and what it
    writes.  The wire has no framing: each opcode arm must consume exactly
    its payload. -/

namespace DriveWire

open Async

/-- `DWINIT_RESPONSE` -/
def dwinitResponse : UInt8 := 0x04

/-! ## Section 1: OS-9 status codes -/

namespace Ss

def comst : UInt8 := 0x28

def «open» : UInt8 := 0x29

def close : UInt8 := 0x2A

/-- `COMST_PAYLOAD_LEN` -/
def comstPayloadLen : Nat := 26

end Ss

namespace Server

variable {D : Type}

/-! ## Section 2: The vserial functions

    The guest's and the host's side both go through these.  Every one of
    them tests the channel before it touches a lock. -/

/-- `push_vserial`: the notification follows the end of the guard's scope. -/
def pushVserial (channel byte : UInt8) : Code D Unit :=
  if h : channel.toNat < vserialChannels then do
    guarded .exclusive (.inboxPushBack ⟨channel.toNat, h⟩ byte)
    await (.notifyOne ⟨channel.toNat, h⟩)
  else return ()

/-- `drain_vserial` -/
def drainVserial (channel : UInt8) : Code D (List UInt8) :=
  if h : channel.toNat < vserialChannels then
    guarded .exclusive (.inboxDrain ⟨channel.toNat, h⟩)
  else return []

/-- `send_to_vserial` -/
def sendToVserial (channel : UInt8) (bytes : List UInt8) : Code D Unit :=
  if h : channel.toNat < vserialChannels then
    guarded .exclusive (.outboxExtend ⟨channel.toNat, h⟩ bytes)
  else return ()

/-- `vserial_outbox_len` -/
def vserialOutboxLen (channel : UInt8) : Code D Nat :=
  if h : channel.toNat < vserialChannels then do
    return (← guarded .exclusive .outboxLens) ⟨channel.toNat, h⟩
  else return 0

/-- `wait_vserial_inbox`: waits for ever on an invalid channel. -/
def waitVserialInbox (channel : UInt8) : Code D Unit :=
  if h : channel.toNat < vserialChannels then await (.notified ⟨channel.toNat, h⟩)
  else await .never

/-- `set_channel_open` -/
def setChannelOpen (channel : UInt8) («open» : Bool) : Code D Unit :=
  if h : channel.toNat < vserialChannels then
    guarded .exclusive (.openSet ⟨channel.toNat, h⟩ «open»)
  else return ()

/-- `is_channel_open` -/
def isChannelOpen (channel : UInt8) : Code D Bool :=
  if h : channel.toNat < vserialChannels then do
    return (← guarded .exclusive .openClone) ⟨channel.toNat, h⟩
  else return false

/-! ## Section 3: Opcode handlers -/

/-- `self.drives.read().await.get(&slot).cloned()` -/
def driveAt (slot : UInt8) : Code D (Option D) := guarded .shared (.driveGet slot)

/-- The slot and the LSN of a READ or WRITE header. -/
def slotOf (hdr : Vector UInt8 4) : UInt8 := hdr[0]

def lsnOf (hdr : Vector UInt8 4) : Lsn := Lsn.fromBe3 #v[hdr[1], hdr[2], hdr[3]]

/-- The sector that `handle_read` answers with: a zero sector stands in for
    an empty slot and for a disk that fails. -/
def fetchSector (slot : UInt8) (lsn : Lsn) : Code D Sector := do
  match ← driveAt slot with
  | some d =>
    match ← await (.sys (.diskRead d lsn)) with
    | .ok sector => return sector
    | .error _ => return zeroSector
  | none => return zeroSector

/-- `handle_read` -/
def handleRead (extended : Bool) : Handler D Unit := do
  let hdr ← readExact 4
  let sector ← call (fetchSector (slotOf hdr) (lsnOf hdr))
  writeAll sector.toList
  let hostSum := checksum16 sector.toList
  if extended then
    -- the guest answers the data with its own checksum
    let guestSumBytes ← readExact 2
    let status := if u16FromBe guestSumBytes = hostSum then 0x00 else DwError.crc.code
    writeAll [status]
  else
    writeAll (u16ToBe hostSum).toList

/-- The status of a WRITE whose checksum matched. -/
def storeSector (slot : UInt8) (lsn : Lsn) (sector : Sector) : Code D UInt8 := do
  match ← driveAt slot with
  | some d =>
    match ← await (.sys (.diskWrite d lsn sector)) with
    | .ok () => return 0
    | .error _ => return DwError.write.code
  | none => return DwError.notReady.code

/-- `handle_write` -/
def handleWrite : Handler D Unit := do
  let hdr ← readExact 4
  let sector ← readExact sectorSize
  let sumBytes ← readExact 2
  -- the checksum is compared before the slot is looked up
  if u16FromBe sumBytes ≠ checksum16 sector.toList then
    writeAll [DwError.crc.code]
  else
    let status ← call (storeSector (slotOf hdr) (lsnOf hdr) sector)
    writeAll [status]

/-- `handle_dwinit` -/
def handleDwinit : Handler D Unit := do
  let _driver ← readExact 1
  writeAll [dwinitResponse]

/-- `handle_stat` -/
def handleStat : Handler D Unit := do
  let _p ← readExact 2
  return ()

/-- `handle_print` -/
def handlePrint : Handler D Unit := do
  let b ← readExact 1
  call (guarded .exclusive (.printPush (byte0 b)))

/-- `handle_print_flush` -/
def handlePrintFlush : Handler D Unit := do
  let _bytes ← call (guarded .exclusive .printTake)
  return ()

/-- `handle_fastwrite` -/
def handleFastwrite (channel : UInt8) : Handler D Unit := do
  let b ← readExact 1
  call (pushVserial channel (byte0 b))

/-- The two reply bytes of `handle_serread`. -/
def serreadReply : Scan → List UInt8
  | .empty => [0x00, 0x00]
  | .byte idx byte => [0x01 + UInt8.ofNat idx.val, byte]
  | .burst idx count => [0x11 + UInt8.ofNat idx.val, count]

/-- `handle_serread`.  The guard of the outbox lives until the function
    returns, so the reply is written in its scope. -/
def handleSerread : Handler D Unit :=
  ExceptT.mk <| withLock .vserialOutbox .exclusive do
    let found ← await (.op .outboxScan)
    (writeAll (serreadReply found)).run

theorem handleSerread_eq :
    (handleSerread (D := D)).run = Prog.eff (.lock .vserialOutbox .exclusive) fun _ =>
      Prog.eff (.op .outboxScan) fun found =>
        Prog.eff (.io (.writeAll (serreadReply found))) fun r =>
          Prog.eff (.unlock .vserialOutbox) fun _ =>
            match r with
            | .ok () => Prog.ret (.ok ())
            | .error e => Prog.ret (.error (.io e)) := by
  refine congrArg (Prog.eff _) (funext fun _ => congrArg (Prog.eff _) (funext fun found =>
    congrArg (Prog.eff _) (funext fun r => ?_)))
  cases r <;> rfl

/-- `handle_serwritem` -/
def handleSerwritem : Handler D Unit := do
  let hdr ← readExact 2
  let buf ← readExact (byte1 hdr).toNat
  -- appends like `pushVserial`, without the notification
  if h : (byte0 hdr).toNat < vserialChannels then
    call (guarded .exclusive (.inboxExtend ⟨(byte0 hdr).toNat, h⟩ buf.toList))
  else return ()

/-- `handle_sersetstat` -/
def handleSersetstat : Handler D Unit := do
  let hdr ← readExact 2
  if byte1 hdr = Ss.open then
    call (setChannelOpen (byte0 hdr) true)
  else if byte1 hdr = Ss.close then
    call (setChannelOpen (byte0 hdr) false)
  -- the settings are read and thrown away
  else if byte1 hdr = Ss.comst then
    let _payload ← readExact Ss.comstPayloadLen
    return ()
  else return ()

/-- The `n` bytes that `handle_serreadm` takes out of a queue, a zero for
    each `pop_front` that finds it empty. -/
def popPadded (channel count : UInt8) : Code D (List UInt8) :=
  if h : channel.toNat < vserialChannels then do
    let popped ← guarded .exclusive (.outboxPop ⟨channel.toNat, h⟩ count.toNat)
    return popped.toList.map (·.getD 0)
  -- an invalid channel still gets `count` bytes
  else return List.replicate count.toNat 0

/-- `handle_serreadm` -/
def handleSerreadm : Handler D Unit := do
  let p ← readExact 2
  let buf ← call (popPadded (byte0 p) (byte1 p))
  writeAll buf

/-- The six bytes of a TIME reply. -/
def timeReply (now : OffsetDateTime) : List UInt8 :=
  [UInt8.ofNat (max 0 (min 255 (now.year - 1900))).toNat,
    now.month, now.day, now.hour, now.minute, now.second]

/-- `handle_time`: local time when available, UTC otherwise. -/
def handleTime : Handler D Unit := do
  match ← call (await (.sys .nowLocal)) with
  | some now => writeAll (timeReply now)
  | none =>
    let now ← call (await (.sys .nowUtc))
    writeAll (timeReply now)

/-! ## Section 4: The dispatch loop -/

/-- The arm of `Server::run` for one decoded opcode byte. -/
def dispatch : Decoded → Handler D Unit
  | .op .nop => return ()
  -- only logged
  | .op .reset1 | .op .reset2 | .op .reset3 => return ()
  | .op .read | .op .reread => handleRead false
  | .op .readEx | .op .rereadEx => handleRead true
  | .op .write | .op .rewrite => handleWrite
  | .op .dwInit => handleDwinit
  | .op .time => handleTime
  | .op .init => return ()
  | .op .term => return ()
  -- GETSTAT and SETSTAT have no reply
  | .op .getStat => handleStat
  | .op .setStat => handleStat
  | .op .print => handlePrint
  | .op .printFlush => handlePrintFlush
  | .op .serRead => handleSerread
  | .op .serReadM => handleSerreadm
  | .op .serInit => do
    let ch ← readExact 1
    call (setChannelOpen (byte0 ch) true)
  | .op .serTerm => do
    let ch ← readExact 1
    call (setChannelOpen (byte0 ch) false)
  | .op .serWrite => do
    let p ← readExact 2
    call (pushVserial (byte0 p) (byte1 p))
  | .op .serWriteM => handleSerwritem
  | .op .serSetStat => handleSersetstat
  | .op .serGetStat => do
    let _p ← readExact 2
    return ()
  | .fastWrite channel => handleFastwrite channel
  -- skipped: resync at the next opcode
  | .unknown _ => return ()
  -- known but unimplemented
  | .op .wirebugMode => return ()

/-- Reading the opcode byte: the end of the stream ends the session. -/
def readOpcode : Handler D UInt8 := ExceptT.mk do
  match ← await (.io (.readExact 1)) with
  | .ok byte => return .ok (byte0 byte)
  | .error e => return .error (if e.kind = .unexpectedEof then .eof else .io e)

/-- One iteration of the loop of `Server::run`. -/
def runOnce : Handler D Unit := do
  let byte ← readOpcode
  dispatch (Decoded.fromByte byte)

theorem runOnce_eq : (runOnce (D := D)).run = Prog.eff (.io (.readExact 1)) fun r =>
    match r with
    | .ok v => (dispatch (Decoded.fromByte (byte0 v))).run
    | .error e => Prog.ret (.error (if e.kind = .unexpectedEof then .eof else .io e)) := by
  refine congrArg (Prog.eff _) (funext fun r => ?_)
  cases r <;> rfl

end Server

end DriveWire
