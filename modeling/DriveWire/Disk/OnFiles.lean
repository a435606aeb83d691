import DriveWire.Disk.DskFile
import DriveWire.Server.System

/-! # The Server on Files

    The running server with the backend's code in place of the disk calls: a
    task can be suspended at every await inside of `DskFile::read` and
    `DskFile::write`, and others run meanwhile.  The open file of an image,
    with its cursor, is behind a mutex. -/

namespace DriveWire

open Async Server

variable {N : Type}

/-! ## Section 1: Disk calls as code -/

/-- An effect of the server, or of the backend's code for one disk call. -/
inductive FineEff where
  | server : Eff DskFile → FineEff
  | disk   : Sys DskFile → FileEff → FineEff

@[reducible] def FineEff.Res : FineEff → Type
  | .server e => e.Res
  | .disk _ e => e.Res

/-- The backend's code for the call `y`. -/
def inCall {α : Type} (y : Sys DskFile) (code : DiskCode α) :
    Prog FineEff FineEff.Res (Except VDiskError α) :=
  code.run.translate fun e => Prog.perform (FineEff.disk y e)

/-- What the server does at each of its effects. -/
def onFiles : (e : Eff DskFile) → Prog FineEff FineEff.Res e.Res
  | .sys (.diskRead d lsn) => inCall (.diskRead d lsn) (d.read lsn)
  | .sys (.diskWrite d lsn data) => inCall (.diskWrite d lsn data) (d.write lsn data)
  | .sys (.diskOpen path readOnly) =>
    inCall (.diskOpen path readOnly) (DskFile.open path readOnly)
  | e => Prog.perform (FineEff.server e)

/-! ## Section 2: The files of several tasks -/

/-- The files, and the holders of the mutexes around the open ones. -/
structure Disks where
  files : Files
  owner : Handle → Option Tid

def Disks.take (s : Disks) (t : Tid) (h : Handle) : Disks :=
  { s with owner := Function.update s.owner h (some t) }

def Disks.free (s : Disks) (h : Handle) : Disks :=
  { s with owner := Function.update s.owner h none }

/-- Polling task `t` at an effect on files.  A mutex is taken when nobody
    holds it, and everything else may take its time. -/
def pollFile (t : Tid) : (e : FileEff) → Disks → Poll e.Res → Disks → Prop
  | .lock h, s, r, s' =>
    (r = .pending ∧ s' = s) ∨ (s.owner h = none ∧ r = .ready () ∧ s' = s.take t h)
  | .unlock h, s, r, s' => r = .ready () ∧ s' = s.free h
  | e, s, r, s' =>
    (r = .pending ∧ s' = s) ∨
      (r = .ready (e.answer s.files).1 ∧ s' = { s with files := (e.answer s.files).2 })

/-- The peers and the clock of `rest`, next to the files. -/
def besideFiles (rest : Env DskFile Unit N) : Env DskFile Disks N where
  net     := rest.net
  sys     := fun t y s r s' => rest.sys t y () r () ∧ s' = s
  connect := rest.connect
  netStep := rest.netStep

abbrev FineEvent : Type := Event (E := FineEff) FineEff.Res

abbrev FineLabel : Type := Label Tid (E := FineEff) FineEff.Res

abbrev FineConfig (N : Type) : Type := Config Tid FineEff FineEff.Res (World DskFile Disks N) Exit

/-- Nothing is mounted or unmounted. -/
def keepsTable (_ : FineConfig N) (l : FineLabel) : Prop :=
  match l.2 with
  | ⟨.server (.op (.driveInsert _ _)), _⟩ => False
  | ⟨.server (.op (.driveRemove _)), _⟩ => False
  | _ => True

end DriveWire
