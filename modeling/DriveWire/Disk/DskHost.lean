import DriveWire.Disk.DskFile
import DriveWire.Server.Status
import DriveWire.Server.Talk

/-! # Sessions on `.dsk` Images

    A guest session on its own, against a server whose drives are `DskFile`s.
    The machine of the session answers a disk call by running the backend's
    code on the files. -/

namespace DriveWire

open Async Server Blocks

/-- Disks and files as the backend and the file system answer, and a clock
    that shows `localTime` and `utc`. -/
def dskHost (localTime : Option OffsetDateTime) (utc : OffsetDateTime) : Host DskFile Files
  | .diskRead d lsn, f => runDisk (d.read lsn) f
  | .diskWrite d lsn data, f => runDisk (d.write lsn data) f
  | .diskOpen path readOnly, f => runDisk (DskFile.open path readOnly) f
  | .nowLocal, f => (localTime, f)
  | .nowUtc, f => (utc, f)

variable {F : Type}

/-- The backend on an arbitrary file system, which may fail, and clocks. -/
def fileHost (fs : (e : FileEff) → F → e.Res × F) (localTime : F → Option OffsetDateTime)
    (utc : F → OffsetDateTime) : Host DskFile F
  | .diskRead d lsn, f => (d.read lsn).run.exec fs f
  | .diskWrite d lsn data, f => (d.write lsn data).run.exec fs f
  | .diskOpen path readOnly, f => (DskFile.open path readOnly).run.exec fs f
  | .nowLocal, f => (localTime f, f)
  | .nowUtc, f => (utc f, f)

/-! ## Section 1: Reads change no file -/

/-- Everything but writing. -/
def FileEff.Reads : FileEff → Prop
  | .writeAll _ _ => False
  | _ => True

theorem only_fileOp {A : FileEff → Prop} {α : Type}
    {code : Prog FileEff FileEff.Res (Except IoError α)} (h : code.Only A) :
    (fileOp code).run.Only A := by
  rw [fileOp, ExceptT.run_mk]
  apply h.bind
  intro r
  cases r <;> trivial

theorem only_withFile {A : FileEff → Prop} {α : Type} {h : Handle} {body : DiskCode α}
    (hlock : A (.lock h)) (hunlock : A (.unlock h)) (hbody : body.run.Only A) :
    (withFile h body).run.Only A := by
  refine ⟨hlock, fun _ _ => ?_⟩
  exact hbody.bind fun _ => ⟨hunlock, fun _ _ => trivial⟩

theorem DskFile.read_only (d : DskFile) (lsn : Lsn) : (d.read lsn).run.Only FileEff.Reads := by
  rw [DskFile.read]
  split
  · trivial
  · apply only_withFile trivial trivial
    apply Prog.Only.run_bind
    · exact only_fileOp ⟨trivial, fun _ _ => trivial⟩
    · intro _
      exact only_fileOp ⟨trivial, fun _ _ => trivial⟩

theorem FileEff.Reads.answer_bytes (e : FileEff) (f : Files) (h : e.Reads) :
    (e.answer f).2.bytes = f.bytes := by
  cases e with
  | writeAll h bs => exact h.elim
  | readExact h n =>
    rw [FileEff.answer]
    split <;> rfl
  | openFile path w =>
    rw [FileEff.answer]
    split <;> rfl
  | _ => rfl

/-- Disk reads change no image on a file system that keeps the images when
    they are not written to. -/
theorem fileHost_reads {fs : (e : FileEff) → F → e.Res × F}
    {localTime : F → Option OffsetDateTime} {utc : F → OffsetDateTime} {I : Type} {images : F → I}
    (hfs : ∀ e f, e.Reads → images (fs e f).2 = images f) (y : Sys DskFile) (f : F)
    (hy : y.Reads) : images (fileHost fs localTime utc y f).2 = images f := by
  cases y with
  | diskRead d lsn =>
    exact (d.read_only lsn).exec fs (Q := fun f f' => images f' = images f) (fun _ => rfl)
      (fun h h' => h'.trans h) (fun e f he => hfs e f he) f
  | diskWrite d lsn data => exact hy.elim
  | diskOpen path readOnly => exact hy.elim
  | nowLocal => rfl
  | nowUtc => rfl

end DriveWire
