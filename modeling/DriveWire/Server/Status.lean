import DriveWire.Server.Framing

/-! # Status Bytes of Disk Commands

    READEX and WRITE end with a status byte.  It is meant to say whether the
    disk operation succeeded.  For WRITE it does; READEX reports the checksum
    exchange only, and a failed read passes as a sector of zeros. -/

namespace DriveWire

open Async Server

namespace Solo

variable {D F : Type} (host : Host D F) (eof : Bool) (t : Tid)

/-! ## Section 1: What the two handlers reply -/

/-- `unwrap_or_else` of `handle_read`. -/
def orZero : Except VDiskError Sector → Sector
  | .ok sector => sector
  | .error _ => zeroSector

/-- The status that `handle_write` makes of the disk's result. -/
def writeStatus : Except VDiskError Unit → UInt8
  | .ok () => 0
  | .error _ => DwError.write.code

/-- The sector that a READ of `(slot, lsn)` is answered with. -/
def fetched (host : Host D F) (s : State D F) (slot : UInt8) (lsn : Lsn) : Sector :=
  match s.server.drives slot with
  | some d => orZero (host (.diskRead d lsn) s.sys).1
  | none => zeroSector

/-- The status of a WRITE with a good checksum. -/
def stored (host : Host D F) (s : State D F) (slot : UInt8) (lsn : Lsn) (data : Sector) : UInt8 :=
  match s.server.drives slot with
  | some d => writeStatus (host (.diskWrite d lsn data) s.sys).1
  | none => DwError.notReady.code

/-- The state after the disk was read. -/
def afterFetch (host : Host D F) (s : State D F) (slot : UInt8) (lsn : Lsn) : State D F :=
  match s.server.drives slot with
  | some d => { s with sys := (host (.diskRead d lsn) s.sys).2 }
  | none => s

/-- The state after the disk was written. -/
def afterStore (host : Host D F) (s : State D F) (slot : UInt8) (lsn : Lsn) (data : Sector) :
    State D F :=
  match s.server.drives slot with
  | some d => { s with sys := (host (.diskWrite d lsn data) s.sys).2 }
  | none => s

theorem eval_fetchSector (s : State D F) (slot : UInt8) (lsn : Lsn) (wire : Wire) :
    (fetchSector slot lsn).eval (answer host eof t) (s.world wire) =
      some (fetched host s slot lsn, (afterFetch host s slot lsn).world wire) := by
  have hdrive := eval_guarded host eof t .shared (.driveGet slot) s wire
  rw [fetchSector, driveAt, Prog.eval_bind, hdrive, fetched, afterFetch]
  simp only [Op.run, Option.bind_some]
  cases s.server.drives slot with
  | none => rfl
  | some d =>
    simp only [await, Prog.perform_bind, Prog.eval_eff, answer, State.world, Option.bind_some]
    cases (host (.diskRead d lsn) s.sys).1 <;> rfl

theorem eval_storeSector (s : State D F) (slot : UInt8) (lsn : Lsn) (data : Sector) (wire : Wire) :
    (storeSector slot lsn data).eval (answer host eof t) (s.world wire) =
      some (stored host s slot lsn data, (afterStore host s slot lsn data).world wire) := by
  have hdrive := eval_guarded host eof t .shared (.driveGet slot) s wire
  rw [storeSector, driveAt, Prog.eval_bind, hdrive, stored, afterStore]
  simp only [Op.run, Option.bind_some]
  cases s.server.drives slot with
  | none => rfl
  | some d =>
    simp only [await, Prog.perform_bind, Prog.eval_eff, answer, State.world, Option.bind_some]
    cases (host (.diskWrite d lsn data) s.sys).1 <;> rfl

/-- A vector at the front of the wire is what a `read_exact` gets. -/
theorem takeVector_append {n : Nat} (v : Vector UInt8 n) (rest : List UInt8)
    (h : n ≤ (v.toList ++ rest).length) : takeVector n (v.toList ++ rest) h = v := by
  apply Vector.toList_inj.mp
  rw [takeVector_toList, List.take_left' v.length_toList]

theorem eval_readExact_append {β : Type} {n : Nat} (v : Vector UInt8 n)
    (f : Vector UInt8 n → Handler D β) (s : State D F) (rest out : List UInt8) :
    (readExact n >>= f).run.eval (answer host eof t) (s.world ⟨v.toList ++ rest, out⟩) =
      (f v).run.eval (answer host eof t) (s.world ⟨rest, out⟩) := by
  have h : n ≤ (v.toList ++ rest).length := by simp
  rw [eval_readExact_bind n f s _ out h, takeVector_append, List.drop_left' v.length_toList]

theorem eval_handleReadEx (s : State D F) (hdr : Vector UInt8 4) (sum : Vector UInt8 2)
    (out : List UInt8) :
    (handleRead true).run.eval (answer host eof t) (s.world ⟨hdr.toList ++ sum.toList, out⟩) =
      some (.ok (), (afterFetch host s (slotOf hdr) (lsnOf hdr)).world
        ⟨[], out ++ ((fetched host s (slotOf hdr) (lsnOf hdr)).toList ++
          [if u16FromBe sum = checksum16 (fetched host s (slotOf hdr) (lsnOf hdr)).toList then 0
            else DwError.crc.code])⟩) := by
  have hfetch := eval_fetchSector host eof t s (slotOf hdr) (lsnOf hdr) ⟨sum.toList, out⟩
  rw [handleRead, eval_readExact_append, eval_call_bind hfetch, eval_writeAll_bind]
  have hsum := eval_readExact_append host eof t sum
    (fun v => writeAll [if u16FromBe v =
      checksum16 (fetched host s (slotOf hdr) (lsnOf hdr)).toList then 0 else DwError.crc.code])
    (afterFetch host s (slotOf hdr) (lsnOf hdr)) []
    (out ++ (fetched host s (slotOf hdr) (lsnOf hdr)).toList)
  rw [List.append_nil] at hsum
  refine hsum.trans ?_
  rw [eval_writeAll, List.append_assoc]

/-- The three parts of a WRITE frame, read one after the other. -/
theorem eval_writeFrame (s : State D F) (hdr : Vector UInt8 4) (data : Sector)
    (sum : Vector UInt8 2) (out : List UInt8) :
    handleWrite.run.eval (answer host eof t)
        (s.world ⟨hdr.toList ++ (data.toList ++ sum.toList), out⟩) =
      (if u16FromBe sum ≠ checksum16 data.toList then writeAll [DwError.crc.code]
        else do
          let status ← call (storeSector (slotOf hdr) (lsnOf hdr) data)
          writeAll [status]).run.eval (answer host eof t) (s.world ⟨[], out⟩) := by
  have hlast := fun f : Vector UInt8 2 → Handler D Unit =>
    eval_readExact_append host eof t sum f s [] out
  rw [List.append_nil] at hlast
  rw [handleWrite, eval_readExact_append, eval_readExact_append, hlast]

theorem eval_handleWrite (s : State D F) (hdr : Vector UInt8 4) (data : Sector)
    (sum : Vector UInt8 2) (out : List UInt8) (hsum : u16FromBe sum = checksum16 data.toList) :
    handleWrite.run.eval (answer host eof t)
        (s.world ⟨hdr.toList ++ (data.toList ++ sum.toList), out⟩) =
      some (.ok (), (afterStore host s (slotOf hdr) (lsnOf hdr) data).world
        ⟨[], out ++ [stored host s (slotOf hdr) (lsnOf hdr) data]⟩) := by
  have hstore := eval_storeSector host eof t s (slotOf hdr) (lsnOf hdr) data ⟨[], out⟩
  rw [eval_writeFrame, if_neg (not_not.mpr hsum), eval_call_bind hstore, eval_writeAll]

/-- A WRITE whose checksum does not match never reaches the drives. -/
theorem eval_handleWrite_rejected (s : State D F) (hdr : Vector UInt8 4) (data : Sector)
    (sum : Vector UInt8 2) (out : List UInt8) (hsum : u16FromBe sum ≠ checksum16 data.toList) :
    handleWrite.run.eval (answer host eof t)
        (s.world ⟨hdr.toList ++ (data.toList ++ sum.toList), out⟩) =
      some (.ok (), s.world ⟨[], out ++ [DwError.crc.code]⟩) := by
  rw [eval_writeFrame, if_pos hsum, eval_writeAll]

/-! ## Section 2: The four commands -/

/-- READEX or WRITE, or with the flag set REREADEX or REWRITE: header, data
    and the guest's checksum. -/
inductive DiskCommand where
  | readEx : Bool → Vector UInt8 4 → Vector UInt8 2 → DiskCommand
  | write  : Bool → Vector UInt8 4 → Sector → Vector UInt8 2 → DiskCommand

namespace DiskCommand

def header : DiskCommand → Vector UInt8 4
  | readEx _ hdr _ => hdr
  | write _ hdr _ _ => hdr

def command : DiskCommand → Command
  | readEx again hdr sum =>
    ⟨if again then 0xF2 else 0xD2, hdr.toList ++ sum.toList, by cases again <;> simp <;> rfl⟩
  | write again hdr data sum =>
    ⟨if again then 0x77 else 0x57, hdr.toList ++ (data.toList ++ sum.toList),
      by cases again <;> simp <;> rfl⟩

/-- `VDisk::read` or `VDisk::write` returns `Ok`. -/
def diskOk (host : Host D F) (d : D) (f : F) : DiskCommand → Bool
  | readEx _ hdr _ => (host (.diskRead d (lsnOf hdr)) f).1.isOk
  | write _ hdr data _ => (host (.diskWrite d (lsnOf hdr) data) f).1.isOk

def isWrite : DiskCommand → Bool
  | readEx _ _ _ => false
  | write _ _ _ _ => true

/-- The guest's checksum is the one of the sector that crossed the wire. -/
def SumMatches (reply : List UInt8) : DiskCommand → Prop
  | readEx _ _ sum => u16FromBe sum = checksum16 (reply.take sectorSize)
  | write _ _ data sum => u16FromBe sum = checksum16 data.toList

/-- The reply ends in a status that is zero exactly if the disk succeeded,
    and else an error code; a zero after READEX vouches for the data. -/
def Honest (host : Host D F) (d : D) (f : F) (cmd : DiskCommand) (reply : List UInt8) : Prop :=
  ∃ data status, reply = data ++ [status] ∧
    (status = 0 ↔ cmd.diskOk host d f = true) ∧
    (cmd.diskOk host d f = false → ∃ e : DwError, status = e.code) ∧
    (cmd.isWrite = false → status = 0 →
      ∃ sector : Sector, (host (.diskRead d (lsnOf cmd.header)) f).1 = .ok sector ∧
        data = sector.toList)

end DiskCommand

/-! ## Section 3: When the status is honest -/

variable {host t}

theorem fetched_mounted {s : State D F} {slot : UInt8} {d : D} (hd : s.server.drives slot = some d)
    (lsn : Lsn) :
    fetched host s slot lsn = orZero (host (.diskRead d lsn) s.sys).1 := by
  simp only [fetched, hd]

theorem stored_mounted {s : State D F} {slot : UInt8} {d : D} (hd : s.server.drives slot = some d)
    (lsn : Lsn) (data : Sector) :
    stored host s slot lsn data = writeStatus (host (.diskWrite d lsn data) s.sys).1 := by
  simp only [stored, hd]

/-- Executing a handler's opcode byte with its payload. -/
theorem exec_handler {c : Command} {x : Handler D Unit} {s s' : State D F} {reply : List UInt8}
    (hx : dispatch (Decoded.fromByte c.opcode) = x)
    (hrun : x.run.eval (answer host false t) (s.world ⟨c.payload, []⟩) =
      some (.ok (), s'.world ⟨[], reply⟩)) : exec host t c s = some (reply, s') := by
  have hopcode : byte0 (takeVector 1 c.bytes (by simp [Command.bytes])) = c.opcode := by
    exact byte0_takeVector 0 c.bytes _
  have honce : runOnce.run.eval (answer host false t) (s.world ⟨c.bytes, []⟩) =
      some (.ok (), s'.world ⟨[], reply⟩) := by
    rw [runOnce_eq, ← hrun, ← hx, ← hopcode]
    simp [answer, State.world, Wire.answer, Command.bytes]
  rw [exec, honce]
  rfl

variable (host t)

theorem exec_readEx (again : Bool) (hdr : Vector UInt8 4) (sum : Vector UInt8 2) (s : State D F) :
    exec host t (DiskCommand.readEx again hdr sum).command s =
      some ((fetched host s (slotOf hdr) (lsnOf hdr)).toList ++
        [if u16FromBe sum = checksum16 (fetched host s (slotOf hdr) (lsnOf hdr)).toList then 0
          else DwError.crc.code], afterFetch host s (slotOf hdr) (lsnOf hdr)) := by
  refine exec_handler (x := handleRead true) ?_ (eval_handleReadEx host false t s hdr sum [])
  cases again <;> rfl

theorem exec_write (again : Bool) (hdr : Vector UInt8 4) (data : Sector) (sum : Vector UInt8 2)
    (s : State D F) (hsum : u16FromBe sum = checksum16 data.toList) :
    exec host t (DiskCommand.write again hdr data sum).command s =
      some ([stored host s (slotOf hdr) (lsnOf hdr) data],
        afterStore host s (slotOf hdr) (lsnOf hdr) data) := by
  refine exec_handler (x := handleWrite) ?_ (eval_handleWrite host false t s hdr data sum [] hsum)
  cases again <;> rfl

theorem exec_write_rejected (again : Bool) (hdr : Vector UInt8 4) (data : Sector)
    (sum : Vector UInt8 2) (s : State D F) (hsum : u16FromBe sum ≠ checksum16 data.toList) :
    exec host t (DiskCommand.write again hdr data sum).command s =
      some ([DwError.crc.code], s) := by
  refine exec_handler (x := handleWrite) ?_
    (eval_handleWrite_rejected host false t s hdr data sum [] hsum)
  cases again <;> rfl

variable {host}

/-- The status of a WRITE with a good checksum is always honest. -/
theorem write_honest {s : State D F} {again : Bool} {hdr : Vector UInt8 4} {data : Sector}
    {sum : Vector UInt8 2} {d : D} (hd : s.server.drives (slotOf hdr) = some d) :
    (DiskCommand.write again hdr data sum).Honest host d s.sys
      [stored host s (slotOf hdr) (lsnOf hdr) data] := by
  refine ⟨[], _, rfl, ?_, ?_, fun h => nomatch h⟩
  · rw [stored_mounted hd, DiskCommand.diskOk]
    cases (host (.diskWrite d (lsnOf hdr) data) s.sys).1 with
    | ok u => exact iff_of_true rfl rfl
    | error e => exact iff_of_false (DwError.write.code_ne_zero) Bool.false_ne_true
  · intro hfail
    rw [DiskCommand.diskOk] at hfail
    rw [stored_mounted hd]
    cases hr : (host (.diskWrite d (lsnOf hdr) data) s.sys).1 with
    | ok u => rw [hr] at hfail; cases hfail
    | error e => exact ⟨.write, rfl⟩

/-- READEX replies zero whenever the checksums match, so that status is
    honest exactly if the disk could read the sector. -/
theorem readEx_honest_iff {s : State D F} {again : Bool} {hdr : Vector UInt8 4}
    {sum : Vector UInt8 2} {d : D} (hd : s.server.drives (slotOf hdr) = some d) :
    (DiskCommand.readEx again hdr sum).Honest host d s.sys
        ((fetched host s (slotOf hdr) (lsnOf hdr)).toList ++ [0]) ↔
      (DiskCommand.readEx again hdr sum).diskOk host d s.sys = true := by
  constructor
  · rintro ⟨data, status, hreply, hstatus, -, -⟩
    obtain ⟨-, hlast⟩ := List.append_inj' hreply rfl
    cases hlast
    exact hstatus.mp rfl
  · intro hok
    refine ⟨_, 0, rfl, iff_of_true rfl hok, fun hfail => ?_, fun _ _ => ?_⟩
    · rw [hok] at hfail
      cases hfail
    · rw [DiskCommand.diskOk] at hok
      rw [fetched_mounted hd]
      cases hr : (host (.diskRead d (lsnOf hdr)) s.sys).1 with
      | ok sector => exact ⟨sector, hr, rfl⟩
      | error e => rw [hr] at hok; cases hok

/-- **Which status bytes can be trusted.** For a command on a mounted slot
    whose checksums match, the status is honest exactly if the command is a
    WRITE or the disk could read the sector. -/
theorem status_honest_iff (host : Host D F) (t : Tid) (s s' : State D F) (cmd : DiskCommand)
    (d : D) (reply : List UInt8) (hd : s.server.drives (slotOf cmd.header) = some d)
    (hexec : exec host t cmd.command s = some (reply, s')) (hsum : cmd.SumMatches reply) :
    cmd.Honest host d s.sys reply ↔ cmd.isWrite = true ∨ cmd.diskOk host d s.sys = true := by
  cases cmd with
  | write again hdr data sum =>
    rw [exec_write host t again hdr data sum s hsum] at hexec
    cases hexec
    exact iff_of_true (write_honest hd) (.inl rfl)
  | readEx again hdr sum =>
    rw [exec_readEx host t again hdr sum s] at hexec
    cases hexec
    have hdata : u16FromBe sum = checksum16 (fetched host s (slotOf hdr) (lsnOf hdr)).toList := by
      rw [DiskCommand.SumMatches] at hsum
      rwa [List.take_left' Vector.length_toList] at hsum
    rw [if_pos hdata]
    refine (readEx_honest_iff hd).trans ⟨.inr, fun h => h.resolve_left ?_⟩
    exact Bool.false_ne_true

/-- One disk, on slot 0. -/
def oneDisk : State Unit Unit where
  server := { Server.new Unit with drives := fun slot => if slot = 0 then some () else none }
  notify := fun _ => .new
  sys    := ()

/-- READEX of sector 0 of slot 0, with the checksum of a zero sector. -/
def readZero : DiskCommand := .readEx false #v[0, 0, 0, 0] #v[0, 0]

theorem checksum16_replicate (n : Nat) : checksum16 (List.replicate n 0) = 0 := by
  induction n with
  | zero => rfl
  | succ n ih => exact ih

theorem zeroSector_sum : checksum16 zeroSector.toList = 0 := by
  rw [zeroSector, Vector.toList_replicate]
  exact checksum16_replicate _

theorem exec_readZero : ∃ s', exec failingHost (.guest 0) readZero.command oneDisk =
    some (zeroSector.toList ++ [0], s') := by
  have hexec := exec_readEx failingHost (.guest 0) false #v[0, 0, 0, 0] #v[0, 0] oneDisk
  have hfetched : fetched failingHost oneDisk (slotOf #v[0, 0, 0, 0]) (lsnOf #v[0, 0, 0, 0]) =
      zeroSector := rfl
  rw [hfetched, zeroSector_sum, if_pos (by decide)] at hexec
  exact ⟨_, hexec⟩

theorem readZero_sumMatches : readZero.SumMatches (zeroSector.toList ++ [0]) := by
  have hsum : u16FromBe #v[0, 0] = checksum16 ((zeroSector.toList ++ [0]).take sectorSize) := by
    rw [List.take_left' Vector.length_toList, zeroSector_sum]
    decide
  exact hsum

theorem status_honest_iff_readZero :
    readZero.Honest failingHost () oneDisk.sys (zeroSector.toList ++ [0]) ↔
      readZero.isWrite = true ∨ readZero.diskOk failingHost () oneDisk.sys = true := by
  obtain ⟨s', hexec⟩ := exec_readZero
  exact status_honest_iff failingHost (.guest 0) oneDisk s' readZero () _ rfl hexec
    readZero_sumMatches

/-- A disk that cannot read, and a guest that is told `0x00`. -/
theorem status_not_honest : ¬ ∀ (host : Host Unit Unit) (t : Tid) (s s' : State Unit Unit)
    (cmd : DiskCommand) (d : Unit) (reply : List UInt8),
    s.server.drives (slotOf cmd.header) = some d → exec host t cmd.command s = some (reply, s') →
    cmd.SumMatches reply → cmd.Honest host d s.sys reply := by
  intro h
  obtain ⟨s', hexec⟩ := exec_readZero
  obtain ⟨data, status, hreply, hstatus, -⟩ :=
    h failingHost (.guest 0) oneDisk s' readZero () _ rfl hexec readZero_sumMatches
  obtain ⟨-, hlast⟩ := List.append_inj' hreply rfl
  cases hlast
  exact absurd (hstatus.mp rfl) (by decide)

end Solo

end DriveWire
