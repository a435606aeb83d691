import DriveWire.Disk.Blocks
import DriveWire.Server.Effects

/-! # The Flat `.dsk` Backend

    `DskFile` of `drivewire-vdisk`, as programs over file effects.  A file is
    an array of bytes, an open file has a cursor in it, and a `DskFile` keeps
    its open file behind a mutex of its own.  Section 4 is about one disk
    that nothing else uses. -/

namespace DriveWire

open Async Blocks

/-! ## Section 1: Files -/

/-- Identity of a file on the host's storage. -/
abbrev Inode : Type := Nat

/-- An open file. -/
abbrev Handle : Type := Nat

/-- The files of the host, and the open ones. -/
structure Files where
  paths  : Text → Option Inode
  bytes  : Inode → List UInt8
  /-- The number of files opened so far. -/
  opened : Handle
  inode  : Handle → Inode
  cursor : Handle → Nat

/-- Operations of `tokio::fs`, and of the mutex around an open file. -/
inductive FileEff where
  | lock        : Handle → FileEff
  | unlock      : Handle → FileEff
  | seek        : Handle → UInt64 → FileEff
  | readExact   : Handle → Nat → FileEff
  | writeAll    : Handle → List UInt8 → FileEff
  | flush       : Handle → FileEff
  | openFile    : Text → Bool → FileEff
  | metadataLen : Handle → FileEff
  deriving DecidableEq

@[reducible] def FileEff.Res : FileEff → Type
  | .lock _ => Unit
  | .unlock _ => Unit
  | .seek _ _ => Except IoError Unit
  | .readExact _ n => Except IoError (Vector UInt8 n)
  | .writeAll _ _ => Except IoError Unit
  | .flush _ => Except IoError Unit
  | .openFile _ _ => Except IoError Handle
  | .metadataLen _ => Except IoError UInt64

namespace Files

/-- The bytes behind an open file. -/
def content (f : Files) (h : Handle) : List UInt8 := f.bytes (f.inode h)

/-- The open file `h` at another position. -/
def setCursor (f : Files) (h : Handle) (pos : Nat) : Files :=
  { f with cursor := Function.update f.cursor h pos }

/-- The file `i` with other bytes. -/
def setBytes (f : Files) (i : Inode) (bs : List UInt8) : Files :=
  { f with bytes := Function.update f.bytes i bs }

@[simp] theorem setCursor_bytes (f : Files) (h : Handle) (pos : Nat) :
    (f.setCursor h pos).bytes = f.bytes := rfl

@[simp] theorem setCursor_inode (f : Files) (h : Handle) (pos : Nat) :
    (f.setCursor h pos).inode = f.inode := rfl

@[simp] theorem setCursor_cursor (f : Files) (h : Handle) (pos : Nat) :
    (f.setCursor h pos).cursor h = pos := by
  simp [setCursor]

@[simp] theorem setCursor_content (f : Files) (h h' : Handle) (pos : Nat) :
    (f.setCursor h pos).content h' = f.content h' := rfl

@[simp] theorem setCursor_setCursor (f : Files) (h : Handle) (pos pos' : Nat) :
    (f.setCursor h pos).setCursor h pos' = f.setCursor h pos' := by
  simp [setCursor]

@[simp] theorem setBytes_bytes (f : Files) (i : Inode) (bs : List UInt8) :
    (f.setBytes i bs).bytes i = bs := by
  simp [setBytes]

theorem setBytes_bytes_ne (f : Files) {i j : Inode} (bs : List UInt8) (h : j ≠ i) :
    (f.setBytes i bs).bytes j = f.bytes j := by
  simp [setBytes, h]

@[simp] theorem setBytes_inode (f : Files) (i : Inode) (bs : List UInt8) :
    (f.setBytes i bs).inode = f.inode := rfl

end Files

/-- How a file system without failures answers.  A mutex that nobody else
    uses is free. -/
def FileEff.answer : (e : FileEff) → Files → e.Res × Files
  | .lock _, f => ((), f)
  | .unlock _, f => ((), f)
  | .seek h pos, f => (.ok (), f.setCursor h pos.toNat)
  | .readExact h n, f =>
    if hn : n ≤ ((f.content h).drop (f.cursor h)).length then
      (.ok (takeVector n ((f.content h).drop (f.cursor h)) hn), f.setCursor h (f.cursor h + n))
    else (.error earlyEof, f.setCursor h (f.content h).length)
  | .writeAll h bs, f =>
    (.ok (), (f.setBytes (f.inode h) (overwrite 0 (f.content h) (f.cursor h) bs)).setCursor h
      (f.cursor h + bs.length))
  | .flush _, f => (.ok (), f)
  | .openFile path _, f =>
    match f.paths path with
    | some i =>
      (.ok f.opened,
        { f with
          opened := f.opened + 1
          inode  := Function.update f.inode f.opened i
          cursor := Function.update f.cursor f.opened 0 })
    | none => (.error ⟨.other, str "No such file or directory (os error 2)"⟩, f)
  | .metadataLen h, f => (.ok (UInt64.ofNat (f.content h).length), f)

theorem FileEff.answer_readExact {h : Handle} {n pos : Nat} {f : Files} (hpos : f.cursor h = pos)
    (hn : n ≤ ((f.content h).drop pos).length) :
    (FileEff.readExact h n).answer f =
      (.ok (takeVector n ((f.content h).drop pos) hn), f.setCursor h (pos + n)) := by
  subst hpos
  exact dif_pos hn

/-! ## Section 2: `DskFile` -/

/-- A mounted image.  The mutex around `file` is the one of its handle. -/
structure DskFile where
  path        : Text
  file        : Handle
  sectorCount : UInt32
  readOnly    : Bool
  deriving DecidableEq

/-- Code of the disk backend. -/
abbrev DiskCode (α : Type) : Type := ExceptT VDiskError (Prog FileEff FileEff.Res) α

/-- A file operation followed by `.await?`. -/
def fileOp {α : Type} (code : Prog FileEff FileEff.Res (Except IoError α)) : DiskCode α :=
  ExceptT.mk do
    match ← code with
    | .ok a => return .ok a
    | .error e => return .error (.io e)

/-- Run `body` while holding the guard of a file's mutex.  The guard is
    dropped at the end of its scope, however the scope is left. -/
def withFile {α : Type} (h : Handle) (body : DiskCode α) : DiskCode α := ExceptT.mk do
  Prog.perform (FileEff.lock h)
  let r ← body.run
  Prog.perform (FileEff.unlock h)
  return r

namespace DskFile

/-- `DskFile::open` -/
def «open» (path : Text) (readOnly : Bool) : DiskCode DskFile := do
  let file ← fileOp (Prog.perform (FileEff.openFile path (!readOnly)))
  let len ← fileOp (Prog.perform (FileEff.metadataLen file))
  let sectorCount := (len / 256).toUInt32
  return { path, file, sectorCount, readOnly }

/-- Where the sector begins: `lsn.0 as u64 * SECTOR_SIZE as u64`. -/
def offset (lsn : Lsn) : UInt64 := lsn.val.toUInt64 * 256

/-- `DskFile::read` -/
def read (d : DskFile) (lsn : Lsn) : DiskCode Sector := do
  if lsn.val ≥ d.sectorCount then throw (.outOfRange lsn)
  else withFile d.file do
    fileOp (Prog.perform (FileEff.seek d.file (offset lsn)))
    fileOp (Prog.perform (FileEff.readExact d.file sectorSize))

/-- `DskFile::write` -/
def write (d : DskFile) (lsn : Lsn) (data : Sector) : DiskCode Unit := do
  if d.readOnly then throw .readOnly
  else if lsn.val ≥ d.sectorCount then throw (.outOfRange lsn)
  else withFile d.file do
    fileOp (Prog.perform (FileEff.seek d.file (offset lsn)))
    fileOp (Prog.perform (FileEff.writeAll d.file data.toList))
    fileOp (Prog.perform (FileEff.flush d.file))

end DskFile

instance : VDisk DskFile where
  sectorCount := DskFile.sectorCount
  name        := DskFile.path

/-! ## Section 3: A disk on its own

    What the operations return, and what they do to the files, when nothing
    else runs. -/

/-- Run code of the backend on files that nobody else uses. -/
def runDisk {α : Type} (code : DiskCode α) (f : Files) : Except VDiskError α × Files :=
  code.run.exec FileEff.answer f

theorem runDisk_withFile {α : Type} (h : Handle) (body : DiskCode α) (f : Files) :
    runDisk (withFile h body) f = runDisk body f := by
  show ((Prog.perform (FileEff.lock h) >>= fun _ => body.run >>= fun r =>
    Prog.perform (FileEff.unlock h) >>= fun _ => Prog.ret r).exec FileEff.answer f) = _
  rw [Prog.exec_bind, Prog.exec_bind]
  rfl

theorem runDisk_fileOp_bind {α β : Type} {code : Prog FileEff FileEff.Res (Except IoError α)}
    {k : α → DiskCode β} {f f' : Files} {a : α}
    (h : code.exec FileEff.answer f = (.ok a, f')) :
    runDisk (fileOp code >>= k) f = runDisk (k a) f' := by
  rw [runDisk, ExceptT.run_bind, Prog.exec_bind, fileOp, ExceptT.run_mk, Prog.exec_bind, h]
  rfl

theorem runDisk_fileOp {α : Type} {code : Prog FileEff FileEff.Res (Except IoError α)}
    {f f' : Files} {a : α} (h : code.exec FileEff.answer f = (.ok a, f')) :
    runDisk (fileOp code) f = (.ok a, f') := by
  rw [runDisk, fileOp, ExceptT.run_mk, Prog.exec_bind, h]
  rfl

namespace DskFile

variable {d : DskFile} {lsn : Lsn} {f : Files}

/-- A sector offset fits into 64 bits. -/
theorem offset_toNat (lsn : Lsn) : (offset lsn).toNat = lsn.val.toNat * 256 := by
  have hlsn := lsn.val.toNat_lt
  simp [offset]
  omega

theorem exec_seek (h : Handle) (lsn : Lsn) (f : Files) :
    (Prog.perform (FileEff.seek h (offset lsn))).exec FileEff.answer f =
      (.ok (), f.setCursor h (lsn.val.toNat * 256)) := by
  simp [Prog.perform, FileEff.answer, offset_toNat]

/-- Every sector below the count lies inside of the file. -/
def Fits (d : DskFile) (f : Files) : Prop :=
  d.sectorCount.toNat * 256 ≤ (f.content d.file).length

theorem Fits.sector (h : d.Fits f) (hlsn : lsn.val < d.sectorCount) :
    (lsn.val.toNat + 1) * 256 ≤ (f.content d.file).length := by
  have hlt : lsn.val.toNat < d.sectorCount.toNat := hlsn
  have hle : (lsn.val.toNat + 1) * 256 ≤ d.sectorCount.toNat * 256 := by omega
  exact hle.trans h

theorem run_read_outOfRange (h : d.sectorCount ≤ lsn.val) :
    runDisk (d.read lsn) f = (.error (.outOfRange lsn), f) := by
  rw [read, if_pos h]
  rfl

/-- A read below the count returns the block of the file. -/
theorem run_read (hfit : d.Fits f) (hlsn : lsn.val < d.sectorCount) :
    ∃ sector : Sector, sector.toList = block 256 (f.content d.file) lsn.val.toNat ∧
      runDisk (d.read lsn) f =
        (.ok sector, f.setCursor d.file (lsn.val.toNat * 256 + sectorSize)) := by
  have hnot : ¬ lsn.val ≥ d.sectorCount := by
    intro hge
    exact absurd hlsn (UInt32.not_lt.mpr hge)
  have hroom : sectorSize ≤ ((f.content d.file).drop (lsn.val.toNat * 256)).length := by
    have := hfit.sector hlsn
    rw [List.length_drop, sectorSize]
    omega
  -- the cursor is where the sector begins
  have hread := FileEff.answer_readExact (Files.setCursor_cursor f d.file _) hroom
  rw [Files.setCursor_setCursor] at hread
  refine ⟨takeVector sectorSize _ hroom, rfl, ?_⟩
  rw [read, if_neg hnot, runDisk_withFile, runDisk_fileOp_bind (exec_seek d.file lsn f)]
  exact runDisk_fileOp hread

theorem run_write_rejected (data : Sector) (f : Files)
    (h : d.readOnly = true ∨ d.sectorCount ≤ lsn.val) :
    ∃ e, runDisk (d.write lsn data) f = (.error e, f) := by
  rw [write]
  by_cases hro : d.readOnly = true
  · rw [if_pos hro]
    exact ⟨.readOnly, rfl⟩
  · rw [if_neg hro, if_pos (h.resolve_left hro)]
    exact ⟨.outOfRange lsn, rfl⟩

/-- A write below the count overwrites the block of the file. -/
theorem run_write {data : Sector} (hro : d.readOnly = false) (hlsn : lsn.val < d.sectorCount) :
    runDisk (d.write lsn data) f =
      (.ok (), (f.setBytes (f.inode d.file) (overwrite 0 (f.content d.file) (lsn.val.toNat * 256)
        data.toList)).setCursor d.file (lsn.val.toNat * 256 + sectorSize)) := by
  have hnot : ¬ lsn.val ≥ d.sectorCount := by
    intro hge
    exact absurd hlsn (UInt32.not_lt.mpr hge)
  have hdata : data.toList.length = sectorSize := data.length_toList
  have hwrite : (Prog.perform (FileEff.writeAll d.file data.toList)).exec FileEff.answer
      (f.setCursor d.file (lsn.val.toNat * 256)) =
      (.ok (), (f.setBytes (f.inode d.file) (overwrite 0 (f.content d.file) (lsn.val.toNat * 256)
        data.toList)).setCursor d.file (lsn.val.toNat * 256 + sectorSize)) := by
    simp [Prog.perform, FileEff.answer, hdata, Files.setBytes, Files.setCursor, Files.content]
  rw [write, if_neg (by simp [hro]), if_neg hnot, runDisk_withFile,
    runDisk_fileOp_bind (exec_seek d.file lsn f), runDisk_fileOp_bind hwrite]
  exact runDisk_fileOp rfl

end DskFile

end DriveWire
