import DriveWire.Disk.DskFile

/-! # What a `.dsk` Image Exposes

    `DskFile::open` derives the sector count from the length of the file, and
    `read` and `write` test every LSN against it.  An image is meant to expose
    its whole sectors, all of them and nothing else, and to keep its size.
    The count is a `u32`: a length whose number of sectors does not fit is
    taken modulo 2^32. -/

namespace DriveWire

open Async Blocks

/-! ## Section 1: Sequences of operations -/

/-- One call of a mounted image. -/
inductive DiskOp where
  | read  : Lsn → DiskOp
  | write : Lsn → Sector → DiskOp

/-- The files after a call. -/
def DiskOp.run (d : DskFile) (f : Files) : DiskOp → Files
  | .read lsn => (runDisk (d.read lsn) f).2
  | .write lsn data => (runDisk (d.write lsn data) f).2

/-- The call returns `Ok`. -/
def DiskOp.Accepted (d : DskFile) (f : Files) : DiskOp → Prop
  | .read lsn => ∃ sector f', runDisk (d.read lsn) f = (.ok sector, f')
  | .write lsn data => ∃ f', runDisk (d.write lsn data) f = (.ok (), f')

/-- The files after a sequence of calls. -/
def DiskOp.runAll (d : DskFile) (ops : List DiskOp) (f : Files) : Files :=
  ops.foldl (DiskOp.run d) f

/-- The image `d` exposes the whole sectors of file `i` of length `len` in the
    state `f`. -/
structure WholeSectors (d : DskFile) (i : Inode) (len : Nat) (f : Files) : Prop where
  length : (f.bytes i).length = len
  read_iff : ∀ b : Vector UInt8 3,
    DiskOp.Accepted d f (.read (Lsn.fromBe3 b)) ↔ ((Lsn.fromBe3 b).val.toNat + 1) * 256 ≤ len
  write_iff : ∀ (b : Vector UInt8 3) (data : Sector),
    DiskOp.Accepted d f (.write (Lsn.fromBe3 b) data) ↔
      d.readOnly = false ∧ ((Lsn.fromBe3 b).val.toNat + 1) * 256 ≤ len
  /-- A read returns the bytes of its sector, and changes no file. -/
  read_touches : ∀ lsn sector f', runDisk (d.read lsn) f = (.ok sector, f') →
    (lsn.val.toNat + 1) * 256 ≤ len ∧ f'.bytes = f.bytes ∧
      ∀ p < 256, sector.toList[p]? = (f.bytes i)[lsn.val.toNat * 256 + p]?
  /-- A write replaces the bytes of its sector, and no other byte of any file. -/
  write_touches : ∀ lsn data f', runDisk (d.write lsn data) f = (.ok (), f') →
    (lsn.val.toNat + 1) * 256 ≤ len ∧ (∀ j, j ≠ i → f'.bytes j = f.bytes j) ∧
      ∀ p, (f'.bytes i)[p]? =
        if lsn.val.toNat * 256 ≤ p ∧ p < lsn.val.toNat * 256 + 256
        then data.toList[p - lsn.val.toNat * 256]? else (f.bytes i)[p]?

/-! ## Section 2: What every operation keeps -/

/-- The handle of `d` is open on file `i`, and the count of `d` covers only
    whole sectors of it. -/
structure Backed (d : DskFile) (i : Inode) (len : Nat) (f : Files) : Prop where
  inode  : f.inode d.file = i
  length : (f.bytes i).length = len
  count  : d.sectorCount.toNat * 256 ≤ len

variable {d : DskFile} {i : Inode} {len : Nat} {f : Files}

theorem Backed.fits (h : Backed d i len f) : d.Fits f := by
  rw [DskFile.Fits, Files.content, h.inode, h.length]
  exact h.count

theorem Backed.room (h : Backed d i len f) {lsn : Lsn} (hlsn : lsn.val < d.sectorCount) :
    (lsn.val.toNat + 1) * 256 ≤ len := by
  have hroom := h.fits.sector hlsn
  rwa [Files.content, h.inode, h.length] at hroom

/-- Moving the cursor changes no file. -/
theorem Backed.setCursor (h : Backed d i len f) (pos : Nat) :
    Backed d i len (f.setCursor d.file pos) :=
  ⟨h.inode, h.length, h.count⟩

theorem Backed.overwrite (h : Backed d i len f) {lsn : Lsn} (hlsn : lsn.val < d.sectorCount)
    (data : Sector) :
    Backed d i len (f.setBytes i (overwrite 0 (f.bytes i) (lsn.val.toNat * 256) data.toList)) := by
  have hroom := h.room hlsn
  have hdata : data.toList.length = 256 := data.length_toList
  refine ⟨h.inode, ?_, h.count⟩
  rw [Files.setBytes_bytes, length_overwrite]
  · exact h.length
  · rw [h.length]
    omega

/-- **Step lemma**: one call keeps the file behind its image. -/
theorem Backed.step (h : Backed d i len f) (o : DiskOp) : Backed d i len (o.run d f) := by
  cases o with
  | read lsn =>
    by_cases hlsn : lsn.val < d.sectorCount
    · obtain ⟨sector, -, hrun⟩ := DskFile.run_read h.fits hlsn
      rw [DiskOp.run, hrun]
      exact h.setCursor _
    · rw [DiskOp.run, DskFile.run_read_outOfRange (UInt32.not_lt.mp hlsn)]
      exact h
  | write lsn data =>
    by_cases hok : d.readOnly = false ∧ lsn.val < d.sectorCount
    · rw [DiskOp.run, DskFile.run_write hok.1 hok.2, Files.content, h.inode]
      exact (h.overwrite hok.2 data).setCursor _
    · -- the image is read-only, or the sector out of range
      have hrej : d.readOnly = true ∨ d.sectorCount ≤ lsn.val := by
        by_cases hro : d.readOnly = true
        · exact .inl hro
        · exact .inr (UInt32.not_lt.mp fun hlt => hok ⟨Bool.not_eq_true _ ▸ hro, hlt⟩)
      obtain ⟨e, hrun⟩ := DskFile.run_write_rejected data f hrej
      rw [DiskOp.run, hrun]
      exact h

/-- **Run lemma**: so does every sequence of calls. -/
theorem Backed.run (h : Backed d i len f) (ops : List DiskOp) :
    Backed d i len (DiskOp.runAll d ops f) := by
  induction ops generalizing f with
  | nil => exact h
  | cons o ops ih => exact ih (h.step o)

/-! ## Section 3: Which calls are accepted -/

theorem accepted_read_iff (h : Backed d i len f) (lsn : Lsn) :
    DiskOp.Accepted d f (.read lsn) ↔ lsn.val < d.sectorCount := by
  constructor
  · rintro ⟨sector, f', hrun⟩
    by_contra hlsn
    rw [DskFile.run_read_outOfRange (UInt32.not_lt.mp hlsn)] at hrun
    cases hrun
  · intro hlsn
    obtain ⟨sector, -, hrun⟩ := DskFile.run_read h.fits hlsn
    exact ⟨sector, _, hrun⟩

theorem accepted_write_iff (lsn : Lsn) (data : Sector) :
    DiskOp.Accepted d f (.write lsn data) ↔ d.readOnly = false ∧ lsn.val < d.sectorCount := by
  constructor
  · rintro ⟨f', hrun⟩
    by_contra hnot
    have hrej : d.readOnly = true ∨ d.sectorCount ≤ lsn.val := by
      by_cases hro : d.readOnly = true
      · exact .inl hro
      · exact .inr (UInt32.not_lt.mp fun hlt => hnot ⟨Bool.not_eq_true _ ▸ hro, hlt⟩)
    obtain ⟨e, hrun'⟩ := DskFile.run_write_rejected data f hrej
    rw [hrun'] at hrun
    cases hrun
  · rintro ⟨hro, hlsn⟩
    exact ⟨_, DskFile.run_write hro hlsn⟩

theorem read_touches (h : Backed d i len f) {lsn : Lsn} {sector : Sector} {f' : Files}
    (hrun : runDisk (d.read lsn) f = (.ok sector, f')) :
    (lsn.val.toNat + 1) * 256 ≤ len ∧ f'.bytes = f.bytes ∧
      ∀ p < 256, sector.toList[p]? = (f.bytes i)[lsn.val.toNat * 256 + p]? := by
  have hlsn := (accepted_read_iff h lsn).mp ⟨sector, f', hrun⟩
  obtain ⟨sector', hblock, hrun'⟩ := DskFile.run_read h.fits hlsn
  rw [hrun'] at hrun
  cases hrun
  refine ⟨h.room hlsn, rfl, fun p hp => ?_⟩
  rw [hblock, getElem?_block hp, Files.content, h.inode]

theorem write_touches (h : Backed d i len f) {lsn : Lsn} {data : Sector} {f' : Files}
    (hrun : runDisk (d.write lsn data) f = (.ok (), f')) :
    (lsn.val.toNat + 1) * 256 ≤ len ∧ (∀ j, j ≠ i → f'.bytes j = f.bytes j) ∧
      ∀ p, (f'.bytes i)[p]? =
        if lsn.val.toNat * 256 ≤ p ∧ p < lsn.val.toNat * 256 + 256
        then data.toList[p - lsn.val.toNat * 256]? else (f.bytes i)[p]? := by
  obtain ⟨hro, hlsn⟩ := (accepted_write_iff lsn data).mp ⟨f', hrun⟩
  have hroom := h.room hlsn
  have hdata : data.toList.length = 256 := data.length_toList
  rw [DskFile.run_write hro hlsn, Files.content, h.inode] at hrun
  cases hrun
  refine ⟨hroom, fun j hj => f.setBytes_bytes_ne _ hj, fun p => ?_⟩
  rw [Files.setCursor_bytes, Files.setBytes_bytes, getElem?_overwrite, hdata]
  rw [h.length]
  omega

/-- An image exposes whole sectors exactly if its count is right for every
    LSN of 24 bits. -/
theorem wholeSectors_iff (h : Backed d i len f) :
    WholeSectors d i len f ↔
      ∀ b : Vector UInt8 3, (Lsn.fromBe3 b).val < d.sectorCount ↔
        ((Lsn.fromBe3 b).val.toNat + 1) * 256 ≤ len := by
  constructor
  · intro hwhole b
    rw [← accepted_read_iff h]
    exact hwhole.read_iff b
  · intro hcount
    refine ⟨h.length, fun b => ?_, fun b data => ?_, fun _ _ _ => read_touches h,
      fun _ _ _ => write_touches h⟩
    · rw [accepted_read_iff h]
      exact hcount b
    · rw [accepted_write_iff, hcount b]

/-! ## Section 4: Opened images -/

/-- `open` finds the file under its path, and its count is the number of
    whole sectors in 32 bits. -/
theorem run_open {path : Text} (readOnly : Bool) (hpath : f.paths path = some i)
    (hlen : (f.bytes i).length < 2 ^ 64) :
    ∃ d f₀, runDisk (DskFile.open path readOnly) f = (.ok d, f₀) ∧
      Backed d i (f.bytes i).length f₀ ∧ f₀.bytes = f.bytes ∧
      d.sectorCount.toNat = (f.bytes i).length / 256 % 2 ^ 32 := by
  let f₀ : Files := ((FileEff.openFile path (!readOnly)).answer f).2
  have hopen : (Prog.perform (FileEff.openFile path (!readOnly))).exec FileEff.answer f =
      (.ok f.opened, f₀) := by
    simp [f₀, Prog.perform, FileEff.answer, hpath]
  have hinode : f₀.inode f.opened = i := by
    simp [f₀, FileEff.answer, hpath]
  have hbytes : f₀.bytes = f.bytes := by
    simp [f₀, FileEff.answer, hpath]
  have hmeta : (Prog.perform (FileEff.metadataLen f.opened)).exec FileEff.answer f₀ =
      (.ok (UInt64.ofNat (f.bytes i).length), f₀) := by
    simp [Prog.perform, FileEff.answer, Files.content, hinode, hbytes]
  -- the cast to `u32` drops the high bits of the count
  have hcount : (UInt64.ofNat (f.bytes i).length / 256).toUInt32.toNat =
      (f.bytes i).length / 256 % 2 ^ 32 := by
    simp
    omega
  refine ⟨⟨path, f.opened, (UInt64.ofNat (f.bytes i).length / 256).toUInt32, readOnly⟩, f₀, ?_,
    ⟨hinode, ?_, ?_⟩, hbytes, hcount⟩
  · rw [DskFile.open, runDisk_fileOp_bind hopen, runDisk_fileOp_bind hmeta]
    rfl
  · rw [hbytes]
  · show (UInt64.ofNat (f.bytes i).length / 256).toUInt32.toNat * 256 ≤ _
    rw [hcount]
    omega

/-- The LSNs that a guest can send are those of 24 bits. -/
theorem forall_fromBe3 {p : Nat → Prop} :
    (∀ b : Vector UInt8 3, p (Lsn.fromBe3 b).val.toNat) ↔ ∀ n < 2 ^ 24, p n := by
  constructor
  · intro h n hn
    have hval : (⟨UInt32.ofNat n⟩ : Lsn).val.toNat = n := by
      simp
      omega
    have hfrom := h (Lsn.toBe3 ⟨UInt32.ofNat n⟩)
    rw [Lsn.fromBe3_toBe3 (hval.symm ▸ hn), hval] at hfrom
    exact hfrom
  · exact fun h b => h _ (Lsn.fromBe3_lt b)

/-- The count modulo 2^32 is right for every LSN of 24 bits exactly if the
    length is below 2^40, or the count is out of their reach all the same. -/
theorem truncated_count_iff (len : Nat) :
    (∀ n < 2 ^ 24, n < len / 256 % 2 ^ 32 ↔ (n + 1) * 256 ≤ len) ↔
      len < 2 ^ 40 ∨ 2 ^ 24 ≤ len / 256 % 2 ^ 32 := by
  constructor
  · intro h
    by_contra hnot
    rw [not_or] at hnot
    -- the first sector that the truncated count leaves out is a whole one
    have hlast := h (len / 256 % 2 ^ 32) (by omega)
    omega
  · rintro (hlen | hcount) n hn
    · have hdiv : len / 256 % 2 ^ 32 = len / 256 := Nat.mod_eq_of_lt (by omega)
      rw [hdiv]
      omega
    · have : 2 ^ 24 ≤ len / 256 := hcount.trans (Nat.mod_le _ _)
      omega

/-- **A `.dsk` image exposes exactly its whole sectors**, after any sequence
    of calls, exactly if its length is below 2^40 or its number of sectors
    modulo 2^32 is beyond the LSNs of 24 bits. -/
theorem whole_sectors_iff (f : Files) (path : Text) (i : Inode) (readOnly : Bool)
    (hpath : f.paths path = some i) (hlen : (f.bytes i).length < 2 ^ 64) :
    ∃ d f₀, runDisk (DskFile.open path readOnly) f = (.ok d, f₀) ∧
      ((∀ ops, WholeSectors d i (f.bytes i).length (DiskOp.runAll d ops f₀)) ↔
        (f.bytes i).length < 2 ^ 40 ∨ 2 ^ 24 ≤ (f.bytes i).length / 256 % 2 ^ 32) := by
  obtain ⟨d, f₀, hrun, hback, -, hcount⟩ := run_open readOnly hpath hlen
  refine ⟨d, f₀, hrun, ?_⟩
  have hlt : ∀ l : Lsn,
      l.val < d.sectorCount ↔ l.val.toNat < (f.bytes i).length / 256 % 2 ^ 32 := by
    intro l
    rw [← hcount]
    exact UInt32.lt_iff_toNat_lt
  rw [← truncated_count_iff]
  constructor
  · intro h
    have hnone := (wholeSectors_iff hback).mp (h [])
    rw [← forall_fromBe3 (p := fun n => n < (f.bytes i).length / 256 % 2 ^ 32 ↔
      (n + 1) * 256 ≤ (f.bytes i).length)]
    intro b
    rw [← hlt]
    exact hnone b
  · intro h ops
    rw [wholeSectors_iff (hback.run ops)]
    intro b
    rw [hlt]
    exact h _ (Lsn.fromBe3_lt b)

/-- A host with one file, under every path. -/
def oneFile (bytes : List UInt8) : Files where
  paths  := fun _ => some 0
  bytes  := fun _ => bytes
  opened := 0
  inode  := fun _ => 0
  cursor := fun _ => 0

theorem whole_sectors_iff_floppy :
    ∃ d f₀, runDisk (DskFile.open (str "floppy.dsk") false) (oneFile (List.replicate 161280 0)) =
        (.ok d, f₀) ∧
      ((∀ ops, WholeSectors d 0 161280 (DiskOp.runAll d ops f₀)) ↔
        161280 < 2 ^ 40 ∨ 2 ^ 24 ≤ 161280 / 256 % 2 ^ 32) := by
  have hlen : ((oneFile (List.replicate 161280 0)).bytes 0).length = 161280 := List.length_replicate
  have h := whole_sectors_iff (oneFile (List.replicate 161280 0)) (str "floppy.dsk") 0 false rfl
    (by rw [hlen]; decide)
  rw [hlen] at h
  exact h

/-- A file of 2^40 bytes exposes no sector at all. -/
theorem whole_sectors_fail : ¬ ∀ (f : Files) (path : Text) (i : Inode) (readOnly : Bool),
    f.paths path = some i → (f.bytes i).length < 2 ^ 64 →
    ∀ d f₀, runDisk (DskFile.open path readOnly) f = (.ok d, f₀) →
      ∀ ops, WholeSectors d i (f.bytes i).length (DiskOp.runAll d ops f₀) := by
  intro h
  have hlen : ((oneFile (List.replicate (2 ^ 40) 0)).bytes 0).length = 2 ^ 40 :=
    List.length_replicate
  have hpath : (oneFile (List.replicate (2 ^ 40) 0)).paths (str "huge.dsk") = some 0 := rfl
  obtain ⟨d, f₀, hrun, hback, -, hcount⟩ := run_open false hpath (by rw [hlen]; decide)
  have hwhole := h _ _ 0 false rfl (by rw [hlen]; decide) d f₀ hrun []
  -- LSN 0 is a whole sector of the file, but not below the truncated count
  have hzero := ((wholeSectors_iff hback).mp hwhole #v[0, 0, 0]).mpr (by rw [hlen]; decide)
  rw [UInt32.lt_iff_toNat_lt, hcount, hlen] at hzero
  exact absurd hzero (by decide)

end DriveWire
