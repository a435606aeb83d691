import DriveWire.Disk.DskHost

/-! # The Sector Checksum

    `checksum16` adds bytes modulo 2^16.  The sum of one sector never wraps,
    so the checksum of a sector is its sum, and one altered byte of a WRITE
    frame or of a READEX exchange is always noticed. -/

namespace DriveWire

open Async Server Solo Blocks

/-! ## Section 1: Sums of bytes -/

/-- The sum of the bytes as an unbounded integer. -/
def byteSum (bs : List UInt8) : Nat := (bs.map UInt8.toNat).sum

@[simp] theorem byteSum_nil : byteSum [] = 0 := rfl

@[simp] theorem byteSum_cons (b : UInt8) (bs : List UInt8) :
    byteSum (b :: bs) = b.toNat + byteSum bs := by
  simp [byteSum]

theorem byteSum_le (bs : List UInt8) : byteSum bs ≤ bs.length * 255 := by
  induction bs with
  | nil => simp
  | cons b bs ih =>
    have hb := b.toNat_lt
    rw [byteSum_cons, List.length_cons]
    omega

/-- The checksum is the sum modulo 2^16. -/
theorem checksum16_toNat (bs : List UInt8) : (checksum16 bs).toNat = byteSum bs % 2 ^ 16 := by
  have hfold : ∀ acc : UInt16,
      (bs.foldl (fun acc b => acc + b.toUInt16) acc).toNat = (acc.toNat + byteSum bs) % 2 ^ 16 := by
    induction bs with
    | nil =>
      intro acc
      simp
    | cons b bs ih =>
      intro acc
      rw [List.foldl_cons, ih, byteSum_cons]
      simp
      omega
  rw [checksum16, hfold]
  simp

/-- No sum of 256 bytes wraps. -/
theorem checksum16_sector (s : Sector) : (checksum16 s.toList).toNat = byteSum s.toList := by
  have hlen : s.toList.length = 256 := s.length_toList
  have hle := byteSum_le s.toList
  rw [checksum16_toNat]
  omega

/-- The checksums of two sectors agree exactly if their sums do. -/
theorem checksum16_eq_iff (s r : Sector) :
    checksum16 s.toList = checksum16 r.toList ↔ byteSum s.toList = byteSum r.toList := by
  rw [← UInt16.toNat_inj, checksum16_sector, checksum16_sector]

/-! ## Section 2: One altered byte -/

/-- `bs'` is `bs` with exactly one byte changed to another value. -/
def AltersOne (bs bs' : List UInt8) : Prop :=
  ∃ front b b' back, bs = front ++ b :: back ∧ bs' = front ++ b' :: back ∧ b' ≠ b

/-- One altered byte changes the sum. -/
theorem AltersOne.byteSum_ne {bs bs' : List UInt8} (h : AltersOne bs bs') :
    byteSum bs' ≠ byteSum bs := by
  obtain ⟨front, b, b', back, rfl, rfl, hne⟩ := h
  have hb : b'.toNat ≠ b.toNat := fun heq => hne (UInt8.toNat_inj.mp heq)
  simp [byteSum]
  omega

/-- An alteration of a concatenation alters one of its two parts. -/
theorem AltersOne.append {xs ys xs' ys' : List UInt8} (hlen : xs'.length = xs.length)
    (h : AltersOne (xs ++ ys) (xs' ++ ys')) :
    (AltersOne xs xs' ∧ ys' = ys) ∨ (xs' = xs ∧ AltersOne ys ys') := by
  obtain ⟨front, b, b', back, heq, heq', hne⟩ := h
  rcases List.append_eq_append_iff.mp heq with ⟨mid, rfl, hys⟩ | ⟨mid, hxs, hback⟩
  · -- the altered byte lies in the second part
    right
    rw [List.append_assoc] at heq'
    obtain ⟨rfl, rfl⟩ := List.append_inj heq' hlen
    exact ⟨rfl, mid, b, b', back, hys, rfl, hne⟩
  · cases mid with
    | nil =>
      right
      rw [List.append_nil] at hxs
      subst hxs
      obtain ⟨rfl, rfl⟩ := List.append_inj heq' hlen
      exact ⟨rfl, [], b, b', back, hback.symm, rfl, hne⟩
    | cons x mid =>
      left
      rw [List.cons_append] at hback
      cases hback
      subst hxs
      have hsplit : front ++ b' :: (mid ++ ys) = (front ++ b' :: mid) ++ ys := by simp
      rw [hsplit] at heq'
      obtain ⟨rfl, rfl⟩ := List.append_inj heq' (by simpa using hlen)
      exact ⟨⟨front, b, b', mid, rfl, rfl, hne⟩, rfl⟩

/-- One altered byte of a checksum field changes its value. -/
theorem AltersOne.u16FromBe_ne {x y : Vector UInt8 2} (h : AltersOne x.toList y.toList) :
    u16FromBe y ≠ u16FromBe x := by
  intro heq
  rw [u16FromBe_injective heq] at h
  exact h.byteSum_ne rfl

/-! ## Section 3: WRITE and READEX -/

/-- The checksum bytes that belong to a sector. -/
def checksumField (s : Sector) : Vector UInt8 2 := u16ToBe (checksum16 s.toList)

theorem u16FromBe_checksumField (s : Sector) :
    u16FromBe (checksumField s) = checksum16 s.toList :=
  u16FromBe_u16ToBe _

/-- Data and checksum of a WRITE frame, as they are sent. -/
def frame (data : Sector) (sum : Vector UInt8 2) : List UInt8 := data.toList ++ sum.toList

/-- A frame for `s` with one altered byte does not pass the test. -/
theorem altered_frame {s data : Sector} {sum : Vector UInt8 2}
    (h : AltersOne (frame s (checksumField s)) (frame data sum)) :
    u16FromBe sum ≠ checksum16 data.toList := by
  have hlen : data.toList.length = s.toList.length := by simp
  rcases h.append hlen with ⟨hdata, hsum⟩ | ⟨hdata, hsum⟩
  · -- the sums of the data differ, and neither wraps
    rw [Vector.toList_inj.mp hsum, u16FromBe_checksumField]
    intro heq
    exact hdata.byteSum_ne ((checksum16_eq_iff _ _).mp heq).symm
  · rw [Vector.toList_inj.mp hdata, ← u16FromBe_checksumField]
    exact hsum.u16FromBe_ne

/-- Neither does the checksum of a sector that was altered on its way, or an
    altered checksum. -/
theorem altered_exchange {s received : Sector} {sum : Vector UInt8 2}
    (h : AltersOne s.toList received.toList ∧ sum = checksumField received ∨
      AltersOne (checksumField s).toList sum.toList) :
    u16FromBe sum ≠ checksum16 s.toList := by
  rcases h with ⟨hdata, rfl⟩ | hsum
  · rw [u16FromBe_checksumField]
    intro heq
    exact hdata.byteSum_ne ((checksum16_eq_iff _ _).mp heq)
  · rw [← u16FromBe_checksumField]
    exact hsum.u16FromBe_ne

section commands

variable {D F : Type} (host : Host D F) (t : Tid)

/-- The status of an accepted WRITE is not the one of a bad checksum. -/
theorem stored_ne_crc (st : State D F) (slot : UInt8) (lsn : Lsn) (data : Sector) :
    stored host st slot lsn data ≠ DwError.crc.code := by
  rw [stored]
  cases st.server.drives slot with
  | none =>
    show DwError.notReady.code ≠ DwError.crc.code
    decide
  | some d =>
    show writeStatus (host (.diskWrite d lsn data) st.sys).1 ≠ DwError.crc.code
    cases (host (.diskWrite d lsn data) st.sys).1 with
    | ok u =>
      show (0 : UInt8) ≠ DwError.crc.code
      decide
    | error e =>
      show DwError.write.code ≠ DwError.crc.code
      decide

/-- WRITE replies `0xF3` exactly if the sums of the two sectors differ. -/
theorem write_rejected_iff (again : Bool) (hdr : Vector UInt8 4) (s r : Sector) (st : State D F) :
    (∃ st', exec host t (DiskCommand.write again hdr r (checksumField s)).command st =
      some ([DwError.crc.code], st')) ↔ byteSum s.toList ≠ byteSum r.toList := by
  rw [Ne, ← checksum16_eq_iff, ← u16FromBe_checksumField s]
  constructor
  · rintro ⟨st', hexec⟩ hsum
    rw [exec_write host t again hdr r _ st hsum] at hexec
    have hreply := congrArg Prod.fst (Option.some.inj hexec)
    exact stored_ne_crc host st _ _ r (List.singleton_injective hreply)
  · intro hsum
    exact ⟨st, exec_write_rejected host t again hdr r _ st hsum⟩

/-- READEX whose checksum does not match ends in `0xF3`. -/
theorem readEx_rejected (again : Bool) (hdr : Vector UInt8 4) (sum : Vector UInt8 2)
    (st : State D F)
    (hsum : u16FromBe sum ≠ checksum16 (fetched host st (slotOf hdr) (lsnOf hdr)).toList) :
    exec host t (DiskCommand.readEx again hdr sum).command st =
      some ((fetched host st (slotOf hdr) (lsnOf hdr)).toList ++ [DwError.crc.code],
        afterFetch host st (slotOf hdr) (lsnOf hdr)) := by
  rw [exec_readEx, if_neg hsum]

end commands

/-! ## Section 4: Retries -/

/-- One attempt to write a sector: the flag tells REWRITE from WRITE. -/
structure Attempt where
  again : Bool
  data  : Sector
  sum   : Vector UInt8 2

namespace Attempt

def command (hdr : Vector UInt8 4) (a : Attempt) : Command :=
  (DiskCommand.write a.again hdr a.data a.sum).command

/-- The frame arrives as it was sent. -/
def Intact (s : Sector) (a : Attempt) : Prop := a.data = s ∧ a.sum = checksumField s

instance (s : Sector) : DecidablePred (Intact s) :=
  fun a => inferInstanceAs (Decidable (a.data = s ∧ a.sum = checksumField s))

/-- The frame was sent for `s`, and at most one byte of it was altered. -/
def AtMostOne (s : Sector) (a : Attempt) : Prop :=
  a.Intact s ∨ AltersOne (frame s (checksumField s)) (frame a.data a.sum)

/-- The reply to an attempt at a writable sector. -/
def status (s : Sector) (a : Attempt) : UInt8 := if a.Intact s then 0 else DwError.crc.code

end Attempt

/-- The sector at `hdr` is in range of a writable image, mounted in the slot
    that `hdr` names. -/
structure Writable (hdr : Vector UInt8 4) (d : DskFile) (st : State DskFile Files) : Prop where
  mounted  : st.server.drives (slotOf hdr) = some d
  writable : d.readOnly = false
  inRange  : (lsnOf hdr).val < d.sectorCount
  fits     : d.Fits st.sys

/-- The content of the sector at `hdr`. -/
def sectorOf (hdr : Vector UInt8 4) (d : DskFile) (st : State DskFile Files) : List UInt8 :=
  block 256 (st.sys.content d.file) (lsnOf hdr).val.toNat

variable {hdr : Vector UInt8 4} {d : DskFile} {st : State DskFile Files} {s : Sector}

/-- Any attempt that is not intact replies `0xF3`, and changes nothing at all. -/
theorem exec_altered {D F : Type} (host : Host D F) (t : Tid) (hdr : Vector UInt8 4)
    (st : State D F) {a : Attempt} (ha : a.AtMostOne s) (hnot : ¬ a.Intact s) :
    exec host t (a.command hdr) st = some ([DwError.crc.code], st) :=
  exec_write_rejected host t a.again hdr a.data a.sum st (altered_frame (ha.resolve_left hnot))

variable (localTime : Option OffsetDateTime) (utc : OffsetDateTime) (t : Tid)

/-- An intact attempt stores the sector, and replies 0. -/
theorem exec_intact (h : Writable hdr d st) {a : Attempt} (ha : a.Intact s) :
    ∃ st', exec (dskHost localTime utc) t (a.command hdr) st = some ([0], st') ∧
      Writable hdr d st' ∧ sectorOf hdr d st' = s.toList := by
  obtain ⟨rfl, hsum⟩ := ha
  have hmatch : u16FromBe a.sum = checksum16 a.data.toList := by
    rw [hsum, u16FromBe_checksumField]
  have hdata : a.data.toList.length = 256 := a.data.length_toList
  have hroom := h.fits.sector h.inRange
  have hrun := @DskFile.run_write d (lsnOf hdr) st.sys a.data h.writable h.inRange
  have hstored : stored (dskHost localTime utc) st (slotOf hdr) (lsnOf hdr) a.data = 0 := by
    rw [stored_mounted h.mounted]
    show writeStatus (runDisk (d.write (lsnOf hdr) a.data) st.sys).1 = 0
    rw [hrun]
    rfl
  have hafter : afterStore (dskHost localTime utc) st (slotOf hdr) (lsnOf hdr) a.data =
      { st with sys := (runDisk (d.write (lsnOf hdr) a.data) st.sys).2 } := by
    rw [afterStore, h.mounted]
    rfl
  refine ⟨_, exec_write _ t a.again hdr a.data a.sum st hmatch |>.trans (by rw [hstored]), ?_, ?_⟩
  · rw [hafter, hrun]
    refine ⟨h.mounted, h.writable, h.inRange, ?_⟩
    -- overwriting a sector leaves the image as long as it is
    have hlen : (overwrite 0 (st.sys.content d.file) ((lsnOf hdr).val.toNat * 256)
        a.data.toList).length = (st.sys.content d.file).length :=
      length_overwrite (by omega)
    have hfits := h.fits
    rw [DskFile.Fits, ← hlen] at hfits
    simpa [DskFile.Fits, Files.content] using hfits
  · rw [sectorOf, hafter, hrun, Files.setCursor_content, Files.content, Files.setBytes_inode,
      Files.setBytes_bytes, block_overwrite hdata hroom, if_pos rfl]

/-- **Retries.** After any number of attempts the sector is its old content,
    or the sent one as soon as one attempt was intact. -/
theorem exec_attempts (h : Writable hdr d st) (attempts : List Attempt)
    (hone : ∀ a ∈ attempts, a.AtMostOne s) :
    ∃ st', execAll (dskHost localTime utc) t (attempts.map (·.command hdr)) st =
        some (attempts.map (·.status s), st') ∧
      sectorOf hdr d st' =
        if ∃ a ∈ attempts, a.Intact s then s.toList else sectorOf hdr d st := by
  induction attempts generalizing st with
  | nil => exact ⟨st, rfl, by simp⟩
  | cons a attempts ih =>
    have hrest : ∀ b ∈ attempts, b.AtMostOne s := fun b hb => hone b (List.mem_cons_of_mem a hb)
    by_cases ha : a.Intact s
    · obtain ⟨st₁, hexec, hwritable, hsector⟩ := exec_intact localTime utc t h ha
      obtain ⟨st', hall, hlast⟩ := ih hwritable hrest
      refine ⟨st', ?_, ?_⟩
      · rw [List.map_cons, execAll, hexec, List.map_cons, Attempt.status, if_pos ha]
        simp [hall]
      · rw [hlast, hsector, ite_self, if_pos ⟨a, List.mem_cons_self, ha⟩]
    · have hexec := exec_altered (dskHost localTime utc) t hdr st (hone a List.mem_cons_self) ha
      obtain ⟨st', hall, hlast⟩ := ih h hrest
      refine ⟨st', ?_, ?_⟩
      · rw [List.map_cons, execAll, hexec, List.map_cons, Attempt.status, if_neg ha]
        simp [hall]
      · rw [hlast]
        simp [ha]

/-- **The checksum catches every single-byte error.**  A WRITE frame with one
    altered byte is rejected with `0xF3` and changes nothing; a READEX whose
    data or checksum was altered in one byte ends in `0xF3`; a frame passes
    exactly if the sums of what was sent and what arrived agree; and over any
    number of attempts the sector is its old content until it is the sent one. -/
theorem single_byte_errors_caught (s : Sector) (hdr : Vector UInt8 4) :
    (∀ (D F : Type) (host : Host D F) (st : State D F) (again : Bool) (data : Sector)
      (sum : Vector UInt8 2), AltersOne (frame s (checksumField s)) (frame data sum) →
      exec host t (DiskCommand.write again hdr data sum).command st =
        some ([DwError.crc.code], st)) ∧
    (∀ (D F : Type) (host : Host D F) (st : State D F) (again : Bool) (received : Sector)
      (sum : Vector UInt8 2), fetched host st (slotOf hdr) (lsnOf hdr) = s →
      (AltersOne s.toList received.toList ∧ sum = checksumField received ∨
        AltersOne (checksumField s).toList sum.toList) →
      exec host t (DiskCommand.readEx again hdr sum).command st =
        some (s.toList ++ [DwError.crc.code], afterFetch host st (slotOf hdr) (lsnOf hdr))) ∧
    (∀ (D F : Type) (host : Host D F) (st : State D F) (again : Bool) (r : Sector),
      (∃ st', exec host t (DiskCommand.write again hdr r (checksumField s)).command st =
        some ([DwError.crc.code], st')) ↔ byteSum s.toList ≠ byteSum r.toList) ∧
    ∀ (d : DskFile) (st : State DskFile Files), Writable hdr d st → ∀ attempts : List Attempt,
      (∀ a ∈ attempts, a.AtMostOne s) →
      ∃ st', execAll (dskHost localTime utc) t (attempts.map (·.command hdr)) st =
          some (attempts.map (·.status s), st') ∧
        sectorOf hdr d st' =
          if ∃ a ∈ attempts, a.Intact s then s.toList else sectorOf hdr d st := by
  refine ⟨fun D F host st again data sum h => ?_, fun D F host st again received sum hs h => ?_,
    fun D F host st again r => write_rejected_iff host t again hdr s r st,
    fun d st h attempts hone => exec_attempts localTime utc t h attempts hone⟩
  · exact exec_write_rejected host t again hdr data sum st (altered_frame h)
  · subst hs
    exact readEx_rejected host t again hdr sum st (altered_exchange h)

/-! ## Section 5: Three attempts -/

/-- One byte of a list is replaced. -/
theorem altersOne_set {bs : List UInt8} {i : Nat} {b : UInt8} (hi : i < bs.length)
    (hb : b ≠ bs[i]) : AltersOne bs (bs.set i b) := by
  refine ⟨bs.take i, bs[i], b, bs.drop (i + 1), ?_, ?_, hb⟩
  · rw [← List.drop_eq_getElem_cons hi, List.take_append_drop]
  · exact List.set_eq_take_append_cons_drop.trans (if_pos hi)

/-- The bytes 0, 1, .., 255. -/
def rising : Sector := ⟨((List.range 256).map UInt8.ofNat).toArray, by simp [sectorSize]⟩

/-- Byte 5 arrives as 9. -/
def garbled : Sector := rising.set 5 9

/-- An open file with `rising` and a zero sector. -/
def tape : Files where
  paths  := fun _ => none
  bytes  := fun _ => rising.toList ++ zeroSector.toList
  opened := 1
  inode  := fun _ => 0
  cursor := fun _ => 0

def tapeDisk : DskFile := ⟨str "tape", 0, 2, false⟩

/-- The tape is mounted in slot 0. -/
def oneTape : State DskFile Files where
  server := { Server.new DskFile with
    drives := fun slot => if slot = 0 then some tapeDisk else none }
  notify := fun _ => .new
  sys    := tape

/-- The files of the tape, at midnight. -/
def tapeHost : Host DskFile Files := dskHost none ⟨1970, 1, 1, 0, 0, 0⟩

def sectorHeader (n : UInt8) : Vector UInt8 4 := #v[0, 0, 0, n]

/-- The checksum of `rising` with its second byte lost. -/
def missummed : Vector UInt8 2 := #v[0x7F, 0]

/-- The data is garbled, then the checksum, and the third frame is intact. -/
def threeAttempts : List Attempt :=
  [⟨false, garbled, checksumField rising⟩, ⟨true, rising, missummed⟩,
    ⟨true, rising, checksumField rising⟩]

theorem length_sector (s : Sector) : s.toList.length = 256 := s.length_toList

theorem tape_writable : Writable (sectorHeader 1) tapeDisk oneTape := by
  refine ⟨rfl, rfl, by decide, ?_⟩
  show 512 ≤ (rising.toList ++ zeroSector.toList).length
  rw [List.length_append, length_sector, length_sector]

theorem tape_fetched :
    fetched tapeHost oneTape (slotOf (sectorHeader 0)) (lsnOf (sectorHeader 0)) =
      rising := by
  obtain ⟨sector, hsector, hrun⟩ :=
    @DskFile.run_read tapeDisk (lsnOf (sectorHeader 0)) oneTape.sys tape_writable.fits (by decide)
  have hfetched : fetched tapeHost oneTape (slotOf (sectorHeader 0))
      (lsnOf (sectorHeader 0)) = sector := by
    show orZero (runDisk (tapeDisk.read (lsnOf (sectorHeader 0))) oneTape.sys).1 = sector
    rw [hrun]
    rfl
  rw [hfetched]
  apply Vector.toList_inj.mp
  rw [hsector]
  show (rising.toList ++ zeroSector.toList).take 256 = rising.toList
  exact List.take_left' (length_sector rising)

theorem rising_sum : checksumField rising = #v[0x7F, 0x80] := by decide +kernel

theorem garbled_alters : AltersOne rising.toList garbled.toList := by
  rw [garbled, Vector.toList_set]
  have hlen : 5 < rising.toList.length := by
    rw [length_sector]
    decide
  have hne : (9 : UInt8) ≠ 5 := by decide
  exact altersOne_set hlen hne

theorem frame_garbled :
    AltersOne (frame rising (checksumField rising)) (frame garbled (checksumField rising)) := by
  obtain ⟨front, b, b', back, hrising, hgarbled, hne⟩ := garbled_alters
  refine ⟨front, b, b', back ++ (checksumField rising).toList, ?_, ?_, hne⟩
  · rw [frame, hrising, List.append_assoc, List.cons_append]
  · rw [frame, hgarbled, List.append_assoc, List.cons_append]

theorem frame_missummed :
    AltersOne (frame rising (checksumField rising)) (frame rising missummed) := by
  rw [rising_sum]
  refine ⟨rising.toList ++ [0x7F], 0x80, 0, [], ?_, ?_, by decide⟩
  · rw [frame, List.append_assoc]
    rfl
  · rw [frame, List.append_assoc]
    rfl

/-- A garbled WRITE, a READEX whose data arrives garbled, and three attempts
    to write the second sector. -/
theorem single_byte_errors_caught_retry :
    exec tapeHost (.guest 0)
        (DiskCommand.write false (sectorHeader 0) garbled (checksumField rising)).command oneTape =
      some ([0xF3], oneTape) ∧
    (∃ st, exec tapeHost (.guest 0)
        (DiskCommand.readEx false (sectorHeader 0) (checksumField garbled)).command oneTape =
      some (rising.toList ++ [0xF3], st)) ∧
    ∃ st, execAll tapeHost (.guest 0)
        (threeAttempts.map (·.command (sectorHeader 1))) oneTape = some ([0xF3, 0xF3, 0], st) ∧
      sectorOf (sectorHeader 1) tapeDisk st = rising.toList := by
  obtain ⟨hwrite, hread, -, -⟩ := single_byte_errors_caught none
    ⟨1970, 1, 1, 0, 0, 0⟩ (.guest 0) rising (sectorHeader 0)
  obtain ⟨-, -, -, hretry⟩ := single_byte_errors_caught none
    ⟨1970, 1, 1, 0, 0, 0⟩ (.guest 0) rising (sectorHeader 1)
  have hone : ∀ a ∈ threeAttempts, a.AtMostOne rising := by
    simp only [threeAttempts, List.forall_mem_cons]
    exact ⟨.inr frame_garbled, .inr frame_missummed, .inl ⟨rfl, rfl⟩, nofun⟩
  have hgarbled : garbled ≠ rising := by
    intro hsame
    exact garbled_alters.byteSum_ne (by rw [hsame])
  have hmissummed : missummed ≠ checksumField rising := by
    rw [rising_sum]
    decide
  have hstatus : threeAttempts.map (·.status rising) = [0xF3, 0xF3, 0] := by
    simp [threeAttempts, Attempt.status, Attempt.Intact, hgarbled, hmissummed, DwError.code]
  have hintact : ∃ a ∈ threeAttempts, a.Intact rising :=
    ⟨_, List.mem_of_getElem? (i := 2) rfl, rfl, rfl⟩
  obtain ⟨st, hall, hsector⟩ := hretry tapeDisk oneTape tape_writable threeAttempts hone
  -- the guest sums up what it got
  have hexec := hread _ _ tapeHost oneTape false garbled _ tape_fetched
    (.inl ⟨garbled_alters, rfl⟩)
  refine ⟨hwrite _ _ _ oneTape false garbled _ frame_garbled, ⟨_, hexec⟩, st, ?_, ?_⟩
  · exact hall.trans (by rw [hstatus])
  · rw [hsector, if_pos hintact]

end DriveWire
