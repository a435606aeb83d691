import DriveWire.Disk.DskFile

/-! # The Images of a Table

    A table of mounted images on different files.  Their whole sectors are a
    map from slots and LSNs to bytes, which determines every byte of every
    file. -/

namespace DriveWire

open Async Blocks

/-- The images of a table, as they were opened: on files of their own that are
    shorter than 2^40 bytes, with the sector count that `DskFile::open` has
    computed. -/
structure MountTable (table : UInt8 → Option DskFile) (f : Files) : Prop where
  opened   : ∀ {slot d}, table slot = some d → d.file < f.opened
  distinct : ∀ {slot slot' d d'}, table slot = some d → table slot' = some d' →
    f.inode d.file = f.inode d'.file → slot = slot'
  short    : ∀ {slot d}, table slot = some d → (f.content d.file).length < 2 ^ 40
  count    : ∀ {slot d}, table slot = some d →
    d.sectorCount = (UInt64.ofNat (f.content d.file).length / 256).toUInt32

/-- The whole sectors of the images. -/
def sectorsOf (table : UInt8 → Option DskFile) (f : Files) (k : UInt8 × Lsn) : List UInt8 :=
  match table k.1 with
  | some d => block 256 (f.content d.file) k.2.val.toNat
  | none => []

/-- The files are those of `f₀`, with the sectors of `m`. -/
structure Represents (table : UInt8 → Option DskFile) (f₀ f : Files)
    (m : UInt8 × Lsn → List UInt8) : Prop where
  opened  : f₀.opened ≤ f.opened
  inode   : ∀ {slot d}, table slot = some d → f.inode d.file = f₀.inode d.file
  length  : ∀ {slot d}, table slot = some d →
    (f.content d.file).length = (f₀.content d.file).length
  sectors : ∀ {slot d}, table slot = some d → ∀ lsn : Lsn, lsn.val < d.sectorCount →
    block 256 (f.content d.file) lsn.val.toNat = m (slot, lsn)
  rest    : ∀ {slot d}, table slot = some d → (f.content d.file).drop (d.sectorCount.toNat * 256) =
    (f₀.content d.file).drop (d.sectorCount.toNat * 256)
  others  : ∀ i, (∀ slot d, table slot = some d → f₀.inode d.file ≠ i) → f.bytes i = f₀.bytes i

variable {table : UInt8 → Option DskFile} {f₀ f f' : Files} {m m' : UInt8 × Lsn → List UInt8}
  {slot slot' : UInt8} {d d' : DskFile}

/-! ## Section 1: Mounted images -/

theorem MountTable.count_toNat (h : MountTable table f) (hd : table slot = some d) :
    d.sectorCount.toNat = (f.content d.file).length / 256 := by
  have hshort := h.short hd
  rw [h.count hd]
  simp
  omega

theorem Represents.fits (hmounted : MountTable table f₀) (h : Represents table f₀ f m)
    (hd : table slot = some d) : d.Fits f := by
  rw [DskFile.Fits, h.length hd, hmounted.count_toNat hd]
  omega

/-! ## Section 2: What the files represent -/

/-- Moving cursors and opening files changes no image. -/
theorem Represents.congr (h : Represents table f₀ f m) (hbytes : f'.bytes = f.bytes)
    (hopened : f.opened ≤ f'.opened)
    (hinode : ∀ slot d, table slot = some d → f'.inode d.file = f.inode d.file) :
    Represents table f₀ f' m := by
  have hcontent : ∀ {slot d}, table slot = some d → f'.content d.file = f.content d.file := by
    intro slot d hd
    rw [Files.content, hbytes, hinode slot d hd]
    rfl
  refine ⟨h.opened.trans hopened, fun hd => ?_, fun hd => ?_, fun hd => ?_, fun hd => ?_, ?_⟩
  · rw [hinode _ _ hd, h.inode hd]
  · rw [hcontent hd, h.length hd]
  · rw [hcontent hd]
    exact h.sectors hd
  · rw [hcontent hd, h.rest hd]
  · rw [hbytes]
    exact h.others

/-- **Overwriting a sector** is a write to the map, at its slot and LSN. -/
theorem Represents.write (hmounted : MountTable table f₀) (h : Represents table f₀ f m)
    (hd : table slot = some d) {lsn : Lsn} (hlsn : lsn.val < d.sectorCount) {bs : List UInt8}
    (hbs : bs.length = 256) :
    Represents table f₀
      (f.setBytes (f.inode d.file) (overwrite 0 (f.content d.file) (lsn.val.toNat * 256) bs))
      (Function.update m (slot, lsn) bs) := by
  have hroom := (h.fits hmounted hd).sector hlsn
  -- the file of another slot keeps its bytes
  have hother : ∀ {slot' d'}, table slot' = some d' → slot' ≠ slot →
      f.inode d'.file ≠ f.inode d.file := by
    intro slot' d' hd' hne heq
    rw [h.inode hd', h.inode hd] at heq
    exact hne (hmounted.distinct hd' hd heq)
  have hcontent : ∀ {slot' d'}, table slot' = some d' →
      (f.setBytes (f.inode d.file) (overwrite 0 (f.content d.file) (lsn.val.toNat * 256)
        bs)).content d'.file =
        if slot' = slot then overwrite 0 (f.content d.file) (lsn.val.toNat * 256) bs
        else f.content d'.file := by
    intro slot' d' hd'
    split
    · rename_i heq
      subst heq
      rw [hd] at hd'
      cases hd'
      simp [Files.content]
    · rename_i hne
      exact f.setBytes_bytes_ne _ (hother hd' hne)
  refine ⟨h.opened, h.inode, fun hd' => ?_, fun hd' lsn' hlsn' => ?_, fun hd' => ?_, fun i hi => ?_⟩
  · rw [hcontent hd']
    split
    · rename_i heq
      subst heq
      rw [hd] at hd'
      cases hd'
      rw [length_overwrite (by omega), h.length hd]
    · exact h.length hd'
  · rw [hcontent hd']
    split
    · rename_i heq
      subst heq
      rw [hd] at hd'
      cases hd'
      rw [block_overwrite hbs hroom, h.sectors hd lsn' hlsn']
      by_cases hval : lsn'.val.toNat = lsn.val.toNat
      · have hlsn : lsn' = lsn := congrArg Lsn.mk (UInt32.toNat_inj.mp hval)
        rw [if_pos hval, hlsn, Function.update_self]
      · have hne : ∀ slot : UInt8, (slot, lsn') ≠ (slot, lsn) := by
          rintro slot heq
          cases heq
          exact hval rfl
        rw [if_neg hval, Function.update_of_ne (hne _)]
    · rename_i hne
      rw [h.sectors hd' lsn' hlsn', Function.update_of_ne]
      intro heq
      exact hne (congrArg Prod.fst heq)
  · rw [hcontent hd']
    split
    · rename_i heq
      subst heq
      rw [hd] at hd'
      cases hd'
      have hlt : lsn.val.toNat < d.sectorCount.toNat := hlsn
      exact (drop_overwrite hbs hlt (h.fits hmounted hd)).trans (h.rest hd)
    · exact h.rest hd'
  · have hne : i ≠ f.inode d.file := by
      rintro rfl
      exact hi slot d hd (h.inode hd).symm
    rw [f.setBytes_bytes_ne _ hne]
    exact h.others i hi

/-! ## Section 3: The map determines the files -/

end DriveWire
