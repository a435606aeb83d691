import DriveWire.Disk.OnFiles
import DriveWire.Server.Sessions
import DriveWire.Store.History

/-! # Requests for Sectors

    What READ and WRITE do to the sectors of a fixed table of images, as a
    protocol of the guest sessions.  A request leads to at most one step on a
    sector, the one that its header names. -/

namespace DriveWire

open Async Server Store

/-! ## Section 1: Steps on sectors -/

/-- A step on the map from slots and LSNs to the bytes of the sectors. -/
abbrev SectorStep : Type := Act (UInt8 × Lsn) (List UInt8)

/-- The slot that an image is mounted on. -/
def mountPoint (table : UInt8 → Option DskFile) (d : DskFile) : UInt8 :=
  ((mountedRows table).find? fun r => r.2 = d).elim 0 (·.1)

/-- No image is mounted on two slots. -/
def MountedOnce (table : UInt8 → Option DskFile) : Prop :=
  ∀ slot slot' d, table slot = some d → table slot' = some d → slot = slot'

variable {table : UInt8 → Option DskFile}

theorem mountPoint_eq (honce : MountedOnce table) {slot : UInt8} {d : DskFile}
    (h : table slot = some d) : mountPoint table d = slot := by
  have hrow : (slot, d) ∈ mountedRows table := mem_mountedRows.mpr h
  cases hfind : (mountedRows table).find? fun r => r.2 = d with
  | none =>
    rw [List.find?_eq_none] at hfind
    exact absurd (decide_eq_true rfl) (hfind (slot, d) hrow)
  | some r =>
    have hd : r.2 = d := by simpa using List.find?_some hfind
    have hr := mem_mountedRows.mp (List.mem_of_find?_eq_some hfind)
    rw [hd] at hr
    rw [mountPoint, hfind]
    exact honce _ _ d hr h

/-- The step that a disk call is. -/
def callSteps (table : UInt8 → Option DskFile) : (y : Sys DskFile) → y.Res → List SectorStep
  | .diskRead d lsn, .ok sector => [.read (mountPoint table d, lsn) sector.toList]
  | .diskWrite d lsn data, .ok () => [.write (mountPoint table d, lsn) data.toList]
  | _, _ => []

/-! ## Section 2: What a guest is told -/

/-- READ, REREAD, READEX and REREADEX. -/
def readOps : List UInt8 := [0x52, 0x72, 0xD2, 0xF2]

/-- WRITE and REWRITE. -/
def writeOps : List UInt8 := [0x57, 0x77]

/-- The bytes that a guest has sent and got in an iteration, and the steps
    that were taken for it. -/
structure Asked where
  heard : List UInt8
  said  : List UInt8
  steps : List SectorStep

def Asked.nothing : Asked := ⟨[], [], []⟩

def Asked.hear (a : Asked) : (i : Io) → i.Res → Asked
  | .readExact _, .ok v => { a with heard := a.heard ++ v.toList }
  | .writeAll bs, .ok () => { a with said := a.said ++ bs }
  | _, _ => a

/-- A WRITE that is carried out. -/
structure Accepted (table : UInt8 → Option DskFile) (hdr : Vector UInt8 4) (data : Sector)
    (sum : Vector UInt8 2) : Prop where
  sum     : u16FromBe sum = checksum16 data.toList
  mounted : ∃ d, table (slotOf hdr) = some d ∧ d.readOnly = false ∧ (lsnOf hdr).val < d.sectorCount

/-- There was no step, or it was the one of a READ or an accepted WRITE that
    was received as a whole. -/
inductive OneStep (table : UInt8 → Option DskFile) (a : Asked) : Prop where
  | none  : a.steps = [] → OneStep table a
  | read  : ∀ op ∈ readOps, ∀ (hdr : Vector UInt8 4) more d bytes,
      a.heard = op :: (hdr.toList ++ more) → table (slotOf hdr) = some d →
      (lsnOf hdr).val < d.sectorCount →
      a.steps = [.read (slotOf hdr, lsnOf hdr) bytes] → OneStep table a
  | write : ∀ op ∈ writeOps, ∀ (hdr : Vector UInt8 4) (data : Sector) (sum : Vector UInt8 2) more,
      a.heard = op :: (hdr.toList ++ (data.toList ++ (sum.toList ++ more))) →
      Accepted table hdr data sum →
      a.steps = [.write (slotOf hdr, lsnOf hdr) data.toList] → OneStep table a

/-- A disk call is for the request that was received. -/
def Asked.Allows (table : UInt8 → Option DskFile) (a : Asked) : Eff DskFile → Prop
  | .sys (.diskRead d lsn) => ∃ op ∈ readOps, ∃ hdr : Vector UInt8 4,
      a = ⟨op :: hdr.toList, [], []⟩ ∧ table (slotOf hdr) = some d ∧ lsn = lsnOf hdr
  | .sys (.diskWrite d lsn data) =>
    ∃ op ∈ writeOps, ∃ (hdr : Vector UInt8 4) (sum : Vector UInt8 2),
      a = ⟨op :: (hdr.toList ++ (data.toList ++ sum.toList)), [], []⟩ ∧
        table (slotOf hdr) = some d ∧ lsn = lsnOf hdr ∧ u16FromBe sum = checksum16 data.toList
  | _ => True

/-- The call is for a sector that exists, and is one that the image permits. -/
def Permitted : Sys DskFile → Prop
  | .diskRead d lsn => lsn.val < d.sectorCount
  | .diskWrite d lsn _ => d.readOnly = false ∧ lsn.val < d.sectorCount
  | _ => False

/-- The table is fixed, and exactly the permitted calls succeed. -/
def TableAnswers (table : UInt8 → Option DskFile) : (e : Eff DskFile) → e.Res → Prop
  | .op (.driveGet slot), found => found = table slot
  | .sys (.diskRead d lsn), r =>
    (Permitted (.diskRead d lsn) → ∃ sector, r = .ok sector) ∧
      (¬ Permitted (.diskRead d lsn) → ∃ e, r = .error e)
  | .sys (.diskWrite d lsn data), r =>
    (Permitted (.diskWrite d lsn data) → r = .ok ()) ∧
      (¬ Permitted (.diskWrite d lsn data) → ∃ e, r = .error e)
  | _, _ => True

def Asked.next (table : UInt8 → Option DskFile) (a : Asked) : (e : Eff DskFile) → e.Res → Asked
  | .io i, r => a.hear i r
  | .sys y, r => { a with steps := a.steps ++ callSteps table y r }
  | _, _ => a

/-- Everything but reading and writing a disk. -/
def Away : Eff DskFile → Prop
  | .sys (.diskRead _ _) | .sys (.diskWrite _ _ _) => False
  | _ => True

theorem Away.allowed {e : Eff DskFile} (h : Away e) (a : Asked) : a.Allows table e := by
  cases e with
  | sys y => cases y <;> trivial
  | _ => trivial

/-- More may have been heard, but no step was taken. -/
def Asked.Heard (a a' : Asked) : Prop := ∃ more, a'.heard = a.heard ++ more ∧ a'.steps = a.steps

theorem Asked.Heard.refl (a : Asked) : a.Heard a := ⟨[], by simp, rfl⟩

theorem Asked.Heard.trans {a a' a'' : Asked} (h : a.Heard a') (h' : a'.Heard a'') :
    a.Heard a'' := by
  obtain ⟨more, hheard, hsteps⟩ := h
  obtain ⟨more', hheard', hsteps'⟩ := h'
  exact ⟨more ++ more', by rw [hheard', hheard, List.append_assoc], hsteps'.trans hsteps⟩

theorem Away.heard {e : Eff DskFile} (h : Away e) (a : Asked) (r : e.Res) :
    a.Heard (a.next table e r) := by
  cases e with
  | io i =>
    cases i with
    | readExact n =>
      cases r with
      | ok v => exact ⟨v.toList, rfl, rfl⟩
      | error e => exact .refl a
    | writeAll bs => cases r <;> exact ⟨[], by simp [Asked.next, Asked.hear], rfl⟩
    | _ => exact .refl a
  | sys y =>
    cases y with
    | diskRead d lsn => cases h
    | diskWrite d lsn data => cases h
    | _ => exact ⟨[], by simp [Asked.next], by simp [Asked.next, callSteps]⟩
  | _ => exact .refl a

variable {op : UInt8} {hdr : Vector UInt8 4}

section handlers

variable {Q : Asked → Prop} {a : Asked}

end handlers

end DriveWire
