import DriveWire.Disk.Calls
import DriveWire.Disk.Images
import DriveWire.Server.Script
import DriveWire.Server.Talk

/-! # The Mounted Disks as a Store

    The images of a fixed table, shared by any number of sessions, behave like
    one store from slots and LSNs to sectors.  A request takes its step on the
    store when the transfer of its sector is complete; the mutex around the
    file makes sure that the cursor is still where the request has put it. -/

namespace DriveWire

open Async Server Store Blocks

variable {N : Type} {table : UInt8 → Option DskFile}

/-! ## Section 1: The invariant of the runs -/

theorem MountTable.once {f : Files} (h : MountTable table f) : MountedOnce table :=
  fun _ _ _ hd hd' => h.distinct hd hd' rfl

theorem OnImage.mounted {y : Sys DskFile} {d : DskFile} {lsn : Lsn} (h : OnImage table y d lsn) :
    ∃ slot, table slot = some d ∧ lsn.val < d.sectorCount := by
  cases h with
  | read hd hlsn => exact ⟨_, hd, hlsn⟩
  | write _ hd _ hlsn => exact ⟨_, hd, hlsn⟩

/-- The table is fixed, a task in a call holds the mutex of its image, and the
    files are those that the steps so far have made of `f₀`. -/
structure Coherent (table : UInt8 → Option DskFile) (f₀ : Files) (tr : List FineLabel)
    (g : Tid → Doing) (w : World DskFile Disks N) : Prop where
  drives  : w.server.drives = table
  valid   : ∀ t, Valid table (g t)
  owner   : ∀ t y p d lsn, (g t).hold = .held y p → OnImage table y d lsn →
    w.sys.owner d.file = some t
  cursor  : ∀ t y d lsn, (g t).hold = .held y .sought → OnImage table y d lsn →
    w.sys.files.cursor d.file = lsn.val.toNat * 256
  images  : Represents table f₀ w.sys.files
    (after (sectorsOf table f₀) (sectorSteps table tr))
  legal   : Legal (sectorsOf table f₀) (sectorSteps table tr)
  answers : ∀ l ∈ tr, FineAnswers table l.2.1 l.2.2

variable {f₀ : Files} {tr : List FineLabel} {g : Tid → Doing} {w w' : World DskFile Disks N}

theorem sectorSteps_snoc (tr : List FineLabel) (l : FineLabel) :
    sectorSteps table (tr ++ [l]) = sectorSteps table tr ++ eventSteps table l.2 := by
  simp [sectorSteps]

/-- Nothing depends on the rest of the world. -/
theorem Coherent.frame (h : Coherent table f₀ tr g w) (hserver : w'.server.drives = w.server.drives)
    (hsys : w'.sys = w.sys) : Coherent table f₀ tr g w' := by
  refine ⟨hserver.trans h.drives, h.valid, ?_, ?_, ?_, h.legal, h.answers⟩
  · rw [hsys]
    exact h.owner
  · rw [hsys]
    exact h.cursor
  · rw [hsys]
    exact h.images

/-- A task goes on to a state in which it is in no call. -/
theorem Coherent.move (h : Coherent table f₀ tr g w) (t : Tid) {a : Asked}
    (ha : OneStep table a) : Coherent table f₀ tr (Function.update g t ⟨a, .free⟩) w := by
  have hother : ∀ {u y p}, (Function.update g t ⟨a, .free⟩ u).hold = .held y p →
      (g u).hold = .held y p := by
    intro u y p hu
    by_cases heq : u = t
    · subst heq
      rw [Function.update_self] at hu
      cases hu
    · rwa [Function.update_of_ne heq] at hu
  refine ⟨h.drives, fun u => ?_, fun u y p d lsn hu => h.owner u y p d lsn (hother hu),
    fun u y d lsn hu => h.cursor u y d lsn (hother hu), h.images, h.legal, h.answers⟩
  by_cases heq : u = t
  · subst heq
    rw [Function.update_self]
    exact valid_free ha
  · rw [Function.update_of_ne heq]
    exact h.valid u

/-- An effect that is no disk call is recorded. -/
theorem Coherent.record (h : Coherent table f₀ tr g w) {l : FineLabel}
    (hsteps : eventSteps table l.2 = []) (hl : FineAnswers table l.2.1 l.2.2) :
    Coherent table f₀ (tr ++ [l]) g w := by
  have hsame : sectorSteps table (tr ++ [l]) = sectorSteps table tr := by
    rw [sectorSteps_snoc, hsteps, List.append_nil]
  refine ⟨h.drives, h.valid, h.owner, h.cursor, ?_, ?_, fun l' hl' => ?_⟩
  · rw [hsame]
    exact h.images
  · rw [hsame]
    exact h.legal
  · rcases List.mem_append.mp hl' with hmem | hmem
    · exact h.answers l' hmem
    · rw [List.mem_singleton.mp hmem]
      exact hl

/-- Other tasks hold other mutexes. -/
theorem Coherent.apart (h : Coherent table f₀ tr g w) {t u : Tid} {file : Handle} (hne : u ≠ t)
    (hfile : w.sys.owner file = none ∨ w.sys.owner file = some t) {y : Sys DskFile} {p : Transfer}
    {d : DskFile} {lsn : Lsn} (hu : (g u).hold = .held y p) (himage : OnImage table y d lsn) :
    d.file ≠ file := by
  rintro rfl
  rw [h.owner u y p d lsn hu himage] at hfile
  rcases hfile with hfile | hfile
  · cases hfile
  · exact hne (Option.some_inj.mp hfile)

/-- An effect of a disk call that does not touch what other tasks hold. -/
theorem Coherent.step (honce : MountedOnce table) (h : Coherent table f₀ tr g w) {t : Tid}
    {y : Sys DskFile} {e : FileEff} {r : e.Res} {s : Disks}
    (hallow : (g t).Allows table (.disk y e)) (hr : Succeeds e r)
    (hothers : ∀ u, u ≠ t → ∀ y' p d lsn, (g u).hold = .held y' p → OnImage table y' d lsn →
      s.owner d.file = w.sys.owner d.file ∧
        s.files.cursor d.file = w.sys.files.cursor d.file)
    (hown : ∀ y' p d lsn, (g t).hold.next y e = .held y' p → OnImage table y' d lsn →
      s.owner d.file = some t ∧ (p = .sought → s.files.cursor d.file = lsn.val.toNat * 256))
    (himages : Represents table f₀ s.files
      (after (sectorsOf table f₀) (sectorSteps table tr ++ fileSteps table y e r)))
    (hlegal : Legal (sectorsOf table f₀) (sectorSteps table tr ++ fileSteps table y e r)) :
    Coherent table f₀ (tr ++ [(t, ⟨.disk y e, r⟩)])
      (Function.update g t ((g t).next table (.disk y e) r)) { w with sys := s } := by
  -- for each field: the task that moves, by what is assumed of it, and the others,
  -- which hold other mutexes
  refine ⟨h.drives, fun u => ?_, fun u y' p d lsn hu himage => ?_, fun u y' d lsn hu himage => ?_,
    ?_, ?_, fun l hl => ?_⟩
  · by_cases heq : u = t
    · subst heq
      rw [Function.update_self]
      exact (h.valid u).next honce hallow hr
    · rw [Function.update_of_ne heq]
      exact h.valid u
  · by_cases heq : u = t
    · subst heq
      rw [Function.update_self] at hu
      exact (hown y' p d lsn hu himage).1
    · rw [Function.update_of_ne heq] at hu
      exact (hothers u heq y' p d lsn hu himage).1.trans (h.owner u y' p d lsn hu himage)
  · by_cases heq : u = t
    · subst heq
      rw [Function.update_self] at hu
      exact (hown y' _ d lsn hu himage).2 rfl
    · rw [Function.update_of_ne heq] at hu
      exact (hothers u heq y' _ d lsn hu himage).2.trans (h.cursor u y' d lsn hu himage)
  · rw [sectorSteps_snoc]
    exact himages
  · rw [sectorSteps_snoc]
    exact hlegal
  · rcases List.mem_append.mp hl with hmem | hmem
    · exact h.answers l hmem
    · rw [List.mem_singleton.mp hmem]
      exact hr

/-! ## Section 2: Every effect of a call -/

/-- A call is for one sector. -/
theorem OnImage.unique {y : Sys DskFile} {d d' : DskFile} {lsn lsn' : Lsn}
    (h : OnImage table y d lsn) (h' : OnImage table y d' lsn') : d = d' ∧ lsn = lsn' := by
  cases h with
  | read _ _ =>
    cases h' with
    | read _ _ => exact ⟨rfl, rfl⟩
  | write _ _ _ _ =>
    cases h' with
    | write _ _ _ _ => exact ⟨rfl, rfl⟩

/-- What a completed file operation has answered. -/
theorem ready_answer {t : Tid} {e : FileEff} {r : e.Res} {s s' : Disks}
    (hlock : ∀ h, e ≠ .lock h) (hunlock : ∀ h, e ≠ .unlock h)
    (hpoll : pollFile t e s (.ready r) s') :
    r = (e.answer s.files).1 ∧ s' = { s with files := (e.answer s.files).2 } := by
  cases e with
  | lock h => exact absurd rfl (hlock h)
  | unlock h => exact absurd rfl (hunlock h)
  | _ =>
    rcases hpoll with ⟨hr, -⟩ | ⟨hr, hs⟩
    · cases hr
    · cases hr
      exact ⟨rfl, hs⟩

/-- An effect of a disk call that transfers nothing. -/
theorem Coherent.still (honce : MountedOnce table) (h : Coherent table f₀ tr g w) {t : Tid}
    {y : Sys DskFile} {e : FileEff} {r : e.Res} {s : Disks}
    (hallow : (g t).Allows table (.disk y e)) (hr : Succeeds e r)
    (hothers : ∀ u, u ≠ t → ∀ y' p d lsn, (g u).hold = .held y' p → OnImage table y' d lsn →
      s.owner d.file = w.sys.owner d.file ∧
        s.files.cursor d.file = w.sys.files.cursor d.file)
    (hown : ∀ y' p d lsn, (g t).hold.next y e = .held y' p → OnImage table y' d lsn →
      s.owner d.file = some t ∧ (p = .sought → s.files.cursor d.file = lsn.val.toNat * 256))
    (hnone : fileSteps table y e r = []) (hbytes : s.files.bytes = w.sys.files.bytes)
    (hopened : w.sys.files.opened ≤ s.files.opened)
    (hinode : ∀ slot d, table slot = some d → s.files.inode d.file = w.sys.files.inode d.file) :
    Coherent table f₀ (tr ++ [(t, ⟨.disk y e, r⟩)])
      (Function.update g t ((g t).next table (.disk y e) r)) { w with sys := s } := by
  refine h.step honce hallow hr hothers hown ?_ ?_
  · rw [hnone, List.append_nil]
    exact h.images.congr hbytes hopened hinode
  · rw [hnone, List.append_nil]
    exact h.legal

section free

/-! A task that is in no call. -/

variable {t : Tid} {y : Sys DskFile} {a : Asked} {s : Disks}

/-- The mutex of an image is taken. -/
theorem Coherent.lock (hmounted : MountTable table f₀) (h : Coherent table f₀ tr g w)
    {file : Handle} (hg : g t = ⟨a, .free⟩)
    (hallow : (g t).Allows table (.disk y (.lock file)))
    (hpoll : pollFile t (.lock file) w.sys (.ready ()) s) :
    Coherent table f₀ (tr ++ [(t, ⟨.disk y (.lock file), ()⟩)])
      (Function.update g t ((g t).next table (.disk y (.lock file)) ())) { w with sys := s } := by
  obtain ⟨hfree, rfl⟩ : w.sys.owner file = none ∧ s = w.sys.take t file := by
    rcases hpoll with ⟨hr, -⟩ | ⟨hfree, -, hs⟩
    · cases hr
    · exact ⟨hfree, hs⟩
  have himage : ∀ d lsn, OnImage table y d lsn → d.file = file := by
    intro d lsn himage
    rw [hg] at hallow
    obtain ⟨d', lsn', himage', hfile⟩ := hallow.1.onImage hallow.2.1 hallow.2.2
    obtain ⟨rfl, -⟩ := himage.unique himage'
    exact hfile
  refine h.still hmounted.once hallow trivial (fun u hu y' p d lsn hheld himage' => ?_)
    (fun y' p d lsn hheld himage' => ?_) (by simp [fileSteps]) rfl le_rfl (fun _ _ _ => rfl)
  · have hne := h.apart hu (.inl hfree) hheld himage'
    exact ⟨Function.update_of_ne hne _ _, rfl⟩
  · cases hheld
    refine ⟨?_, fun hp => by cases hp⟩
    rw [himage d lsn himage']
    exact Function.update_self _ _ _

/-- Another file is opened: it gets a handle of its own. -/
theorem Coherent.openFile (hmounted : MountTable table f₀) (h : Coherent table f₀ tr g w)
    {path : Text} {write : Bool} {r : Except IoError Handle} (hg : g t = ⟨a, .free⟩)
    (hallow : (g t).Allows table (.disk y (.openFile path write)))
    (hpoll : pollFile t (.openFile path write) w.sys (.ready r) s) :
    Coherent table f₀ (tr ++ [(t, ⟨.disk y (.openFile path write), r⟩)])
      (Function.update g t ((g t).next table (.disk y (.openFile path write)) r))
      { w with sys := s } := by
  obtain ⟨-, rfl⟩ := ready_answer (fun _ h => by cases h) (fun _ h => by cases h) hpoll
  have hnew : ∀ slot d, table slot = some d → d.file ≠ w.sys.files.opened := by
    intro slot d hd heq
    have hlt := (hmounted.opened hd).trans_le h.images.opened
    rw [heq] at hlt
    exact lt_irrefl _ hlt
  -- what opening a file keeps, whether there is such a file or not
  have hkeeps : ((FileEff.openFile path write).answer w.sys.files).2.bytes = w.sys.files.bytes ∧
      w.sys.files.opened ≤ ((FileEff.openFile path write).answer w.sys.files).2.opened ∧
      ∀ file, file ≠ w.sys.files.opened →
        ((FileEff.openFile path write).answer w.sys.files).2.inode file = w.sys.files.inode file ∧
          ((FileEff.openFile path write).answer w.sys.files).2.cursor file =
            w.sys.files.cursor file := by
    cases hpath : w.sys.files.paths path with
    | none => simp [FileEff.answer, hpath]
    | some i =>
      refine ⟨by simp [FileEff.answer, hpath], by simp [FileEff.answer, hpath], fun file hne => ?_⟩
      simp [FileEff.answer, hpath, hne]
  obtain ⟨hbytes, hopened, hfile⟩ := hkeeps
  refine h.still hmounted.once hallow trivial (fun u _ y' p d lsn _ himage => ?_)
    (fun y' p d lsn hheld => ?_) (by simp [fileSteps]) hbytes hopened
    (fun slot d hd => (hfile _ (hnew slot d hd)).1)
  · obtain ⟨slot, hd, -⟩ := himage.mounted
    exact ⟨rfl, (hfile _ (hnew slot d hd)).2⟩
  · rw [hg] at hheld
    cases hheld

/-- The length of a file is looked up. -/
theorem Coherent.metadataLen (hmounted : MountTable table f₀) (h : Coherent table f₀ tr g w)
    {file : Handle} {r : Except IoError UInt64} (hg : g t = ⟨a, .free⟩)
    (hallow : (g t).Allows table (.disk y (.metadataLen file)))
    (hpoll : pollFile t (.metadataLen file) w.sys (.ready r) s) :
    Coherent table f₀ (tr ++ [(t, ⟨.disk y (.metadataLen file), r⟩)])
      (Function.update g t ((g t).next table (.disk y (.metadataLen file)) r))
      { w with sys := s } := by
  obtain ⟨-, rfl⟩ := ready_answer (fun _ h => by cases h) (fun _ h => by cases h) hpoll
  refine h.still hmounted.once hallow trivial (fun _ _ _ _ _ _ _ _ => ⟨rfl, rfl⟩)
    (fun y' p d lsn hheld => ?_) (by simp [fileSteps]) rfl le_rfl (fun _ _ _ => rfl)
  rw [hg] at hheld
  cases hheld

end free

section held

/-! A task that holds the mutex of the image `d`, for the sector `lsn`. -/

variable {t : Tid} {y : Sys DskFile} {a : Asked} {p : Transfer} {s : Disks} {d : DskFile}
  {lsn : Lsn}

/-- The cursor of another image stays where it is. -/
theorem Coherent.others (h : Coherent table f₀ tr g w) (hg : g t = ⟨a, .held y p⟩)
    (himage : OnImage table y d lsn)
    (howner : ∀ file, file ≠ d.file → s.owner file = w.sys.owner file)
    (hcursor : ∀ file, file ≠ d.file → s.files.cursor file = w.sys.files.cursor file) :
    ∀ u, u ≠ t → ∀ y' p d' lsn', (g u).hold = .held y' p → OnImage table y' d' lsn' →
      s.owner d'.file = w.sys.owner d'.file ∧
        s.files.cursor d'.file = w.sys.files.cursor d'.file := by
  intro u hu y' p' d' lsn' hheld himage'
  have hown : w.sys.owner d.file = some t := h.owner t y p d lsn (by rw [hg]) himage
  have hne := h.apart hu (.inr hown) hheld himage'
  exact ⟨howner _ hne, hcursor _ hne⟩

/-- What the task has to know of its own image after an effect. -/
theorem Coherent.own (h : Coherent table f₀ tr g w) (hg : g t = ⟨a, .held y p⟩)
    (himage : OnImage table y d lsn) {e : FileEff} {p' : Transfer}
    (hnext : Hold.next (.held y p) y e = .held y p') (howner : s.owner = w.sys.owner)
    (hcursor : p' = .sought → s.files.cursor d.file = lsn.val.toNat * 256) :
    ∀ y' p' d' lsn', (g t).hold.next y e = .held y' p' → OnImage table y' d' lsn' →
      s.owner d'.file = some t ∧
        (p' = .sought → s.files.cursor d'.file = lsn'.val.toNat * 256) := by
  intro y' p'' d' lsn' hheld himage'
  rw [hg] at hheld
  cases hnext.symm.trans hheld
  obtain ⟨rfl, rfl⟩ := himage.unique himage'
  rw [howner]
  exact ⟨h.owner t y p d lsn (by rw [hg]) himage, hcursor⟩

/-- The cursor is put to the sector. -/
theorem Coherent.seek (hmounted : MountTable table f₀) (h : Coherent table f₀ tr g w)
    {r : Except IoError Unit} (hg : g t = ⟨a, .held y p⟩) (himage : OnImage table y d lsn)
    (hallow : (g t).Allows table (.disk y (.seek d.file (DskFile.offset lsn))))
    (hpoll : pollFile t (.seek d.file (DskFile.offset lsn)) w.sys (.ready r) s) :
    Succeeds (.seek d.file (DskFile.offset lsn)) r ∧
      Coherent table f₀ (tr ++ [(t, ⟨.disk y (.seek d.file (DskFile.offset lsn)), r⟩)])
        (Function.update g t ((g t).next table (.disk y (.seek d.file (DskFile.offset lsn))) r))
        { w with sys := s } := by
  obtain ⟨rfl, rfl⟩ := ready_answer (fun _ h => by cases h) (fun _ h => by cases h) hpoll
  refine ⟨rfl, h.still hmounted.once hallow rfl ?_ (h.own hg himage rfl rfl fun _ => ?_)
    (by simp [fileSteps]) rfl le_rfl (fun _ _ _ => rfl)⟩
  · exact h.others hg himage (fun _ _ => rfl) fun file hne => Function.update_of_ne hne _ _
  · rw [← DskFile.offset_toNat]
    exact Function.update_self _ _ _

/-- **A sector is read**: the bytes are those of the map. -/
theorem Coherent.readExact (hmounted : MountTable table f₀) (h : Coherent table f₀ tr g w)
    {slot : UInt8} {r : Except IoError Sector} (hg : g t = ⟨a, .held (.diskRead d lsn) .sought⟩)
    (hd : table slot = some d) (hlsn : lsn.val < d.sectorCount)
    (hallow : (g t).Allows table (.disk (.diskRead d lsn) (.readExact d.file sectorSize)))
    (hpoll : pollFile t (.readExact d.file sectorSize) w.sys (.ready r) s) :
    Succeeds (.readExact d.file sectorSize) r ∧
      Coherent table f₀ (tr ++ [(t, ⟨.disk (.diskRead d lsn) (.readExact d.file sectorSize), r⟩)])
        (Function.update g t
          ((g t).next table (.disk (.diskRead d lsn) (.readExact d.file sectorSize)) r))
        { w with sys := s } := by
  have himage : OnImage table (.diskRead d lsn) d lsn := .read hd hlsn
  have hroom : sectorSize ≤ ((w.sys.files.content d.file).drop (lsn.val.toNat * 256)).length := by
    have := (h.images.fits hmounted hd).sector hlsn
    rw [List.length_drop, sectorSize]
    omega
  -- nobody has moved the cursor since the seek
  have hcursor := h.cursor t _ d lsn (by rw [hg]) himage
  have hanswer := FileEff.answer_readExact hcursor hroom
  obtain ⟨rfl, rfl⟩ := ready_answer (fun _ h => by cases h) (fun _ h => by cases h) hpoll
  rw [hanswer]
  have hok : Succeeds (.readExact d.file sectorSize)
      (.ok (takeVector sectorSize
        ((w.sys.files.content d.file).drop (lsn.val.toNat * 256)) hroom)) :=
    ⟨_, rfl⟩
  refine ⟨hok, h.step hmounted.once hallow hok ?_ (h.own hg himage rfl rfl fun hp => by cases hp)
    ?_ ?_⟩
  · exact h.others hg himage (fun _ _ => rfl) fun file hne => Function.update_of_ne hne _ _
  · rw [after_append]
    exact h.images.congr rfl le_rfl fun _ _ _ => rfl
  · -- the block in the file is the sector of the map
    refine h.legal.snoc ?_
    show block 256 (w.sys.files.content d.file) lsn.val.toNat = _
    rw [mountPoint_eq hmounted.once hd]
    exact h.images.sectors hd lsn hlsn

/-- **A sector is written**: the map is changed at the sector of the call. -/
theorem Coherent.writeAll (hmounted : MountTable table f₀) (h : Coherent table f₀ tr g w)
    {slot : UInt8} {data : Sector} {r : Except IoError Unit}
    (hg : g t = ⟨a, .held (.diskWrite d lsn data) .sought⟩) (hd : table slot = some d)
    (hro : d.readOnly = false) (hlsn : lsn.val < d.sectorCount)
    (hallow : (g t).Allows table (.disk (.diskWrite d lsn data) (.writeAll d.file data.toList)))
    (hpoll : pollFile t (.writeAll d.file data.toList) w.sys (.ready r) s) :
    Succeeds (.writeAll d.file data.toList) r ∧
      Coherent table f₀
        (tr ++ [(t, ⟨.disk (.diskWrite d lsn data) (.writeAll d.file data.toList), r⟩)])
        (Function.update g t
          ((g t).next table (.disk (.diskWrite d lsn data) (.writeAll d.file data.toList)) r))
        { w with sys := s } := by
  have himage : OnImage table (.diskWrite d lsn data) d lsn := .write data hd hro hlsn
  have hcursor := h.cursor t _ d lsn (by rw [hg]) himage
  obtain ⟨rfl, rfl⟩ := ready_answer (fun _ h => by cases h) (fun _ h => by cases h) hpoll
  have hwritten := h.images.write hmounted hd hlsn data.length_toList
  refine ⟨rfl, h.step hmounted.once hallow rfl ?_ (h.own hg himage rfl rfl fun hp => by cases hp)
    ?_ ?_⟩
  · exact h.others hg himage (fun _ _ => rfl) fun file hne => Function.update_of_ne hne _ _
  · rw [after_append]
    show Represents table f₀ _ (Function.update _ (mountPoint table d, lsn) data.toList)
    rw [mountPoint_eq hmounted.once hd]
    refine hwritten.congr ?_ le_rfl fun _ _ _ => rfl
    rw [← hcursor]
    rfl
  · exact h.legal.snoc trivial

theorem Coherent.flush (hmounted : MountTable table f₀) (h : Coherent table f₀ tr g w)
    {r : Except IoError Unit} (hg : g t = ⟨a, .held y p⟩) (himage : OnImage table y d lsn)
    (hallow : (g t).Allows table (.disk y (.flush d.file)))
    (hpoll : pollFile t (.flush d.file) w.sys (.ready r) s) :
    Succeeds (.flush d.file) r ∧ Coherent table f₀ (tr ++ [(t, ⟨.disk y (.flush d.file), r⟩)])
      (Function.update g t ((g t).next table (.disk y (.flush d.file)) r)) { w with sys := s } := by
  obtain ⟨rfl, rfl⟩ := ready_answer (fun _ h => by cases h) (fun _ h => by cases h) hpoll
  have hnext : Hold.next (.held y p) y (.flush d.file) = .held y .flushed := rfl
  have hown := h.own hg himage hnext rfl fun hp => by cases hp
  refine ⟨rfl, h.still hmounted.once hallow rfl ?_ hown (by simp [fileSteps]) rfl le_rfl
    (fun _ _ _ => rfl)⟩
  exact h.others hg himage (fun _ _ => rfl) fun _ _ => rfl

/-- The mutex is given back. -/
theorem Coherent.unlock (hmounted : MountTable table f₀) (h : Coherent table f₀ tr g w)
    (hg : g t = ⟨a, .held y p⟩) (himage : OnImage table y d lsn)
    (hallow : (g t).Allows table (.disk y (.unlock d.file)))
    (hpoll : pollFile t (.unlock d.file) w.sys (.ready ()) s) :
    Coherent table f₀ (tr ++ [(t, ⟨.disk y (.unlock d.file), ()⟩)])
      (Function.update g t ((g t).next table (.disk y (.unlock d.file)) ()))
      { w with sys := s } := by
  obtain ⟨-, rfl⟩ := hpoll
  refine h.still hmounted.once hallow trivial ?_ (fun y' p d lsn hheld => by cases hheld)
    (by simp [fileSteps]) rfl le_rfl (fun _ _ _ => rfl)
  exact h.others hg himage (fun file hne => Function.update_of_ne hne _ _) fun _ _ => rfl

end held

/-- **Step lemma**: every effect of a disk call keeps the invariant. -/
theorem Coherent.disk_ready (hmounted : MountTable table f₀) (h : Coherent table f₀ tr g w)
    {t : Tid} {y : Sys DskFile} {e : FileEff} {r : e.Res} {s : Disks}
    (hallow : (g t).Allows table (.disk y e)) (hpoll : pollFile t e w.sys (.ready r) s) :
    Succeeds e r ∧ Coherent table f₀ (tr ++ [(t, ⟨.disk y e, r⟩)])
      (Function.update g t ((g t).next table (.disk y e) r)) { w with sys := s } := by
  have hallow' := hallow
  cases hg : g t with
  | mk a hold =>
  rw [hg] at hallow'
  rw [← hg]
  -- one lemma for each effect that the phase of the call allows
  cases hold with
  | free =>
    cases e with
    | lock file => exact ⟨trivial, h.lock hmounted hg hallow hpoll⟩
    | openFile path write => exact ⟨trivial, h.openFile hmounted hg hallow hpoll⟩
    | metadataLen file => exact ⟨trivial, h.metadataLen hmounted hg hallow hpoll⟩
    | _ => cases hallow'
  | held y' p =>
    obtain ⟨rfl, hdoing⟩ := hallow'
    obtain ⟨d, lsn, himage⟩ := (h.valid t).image y p (by rw [hg])
    cases himage with
    | read hd hlsn =>
      cases p with
      | locked =>
        cases hdoing
        exact h.seek hmounted hg (.read hd hlsn) hallow hpoll
      | sought =>
        cases hdoing
        exact h.readExact hmounted hg hd hlsn hallow hpoll
      | moved =>
        cases hdoing
        exact ⟨trivial, h.unlock hmounted hg (.read hd hlsn) hallow hpoll⟩
      | flushed => cases hdoing
    | write data hd hro hlsn =>
      cases p with
      | locked =>
        cases hdoing
        exact h.seek hmounted hg (.write data hd hro hlsn) hallow hpoll
      | sought =>
        cases hdoing
        exact h.writeAll hmounted hg hd hro hlsn hallow hpoll
      | moved =>
        cases hdoing
        exact h.flush hmounted hg (.write data hd hro hlsn) hallow hpoll
      | flushed =>
        cases hdoing
        exact ⟨trivial, h.unlock hmounted hg (.write data hd hro hlsn) hallow hpoll⟩

/-! ## Section 3: Every run -/

variable {rest : Env DskFile Unit N}

/-- The server's own effects touch no file. -/
theorem poll_besideFiles {t : Tid} {e : Eff DskFile} {r : Poll e.Res}
    (h : poll (besideFiles rest) t e w r w') : w'.sys = w.sys := by
  cases e with
  | sys y =>
    obtain ⟨f, ⟨-, rfl⟩, rfl⟩ := h
    rfl
  | _ => exact poll_sys h fun _ h => by cases h

theorem drives_kept {e : Eff DskFile} {r : e.Res} {c : FineConfig N} {t : Tid}
    (hok : keepsTable c (t, ⟨.server e, r⟩)) (s : Server DskFile) :
    (e.serverAfter s).drives = s.drives := by
  cases e with
  | op o =>
    cases o with
    | driveInsert slot d => cases hok
    | driveRemove slot => cases hok
    | _ => rfl
  | _ => rfl

/-- **Step lemma**: so does every other effect of the server. -/
theorem Coherent.server_ready (hmounted : MountTable table f₀) (h : Coherent table f₀ tr g w)
    {c : FineConfig N} {t : Tid} {e : Eff DskFile} {r : e.Res}
    (hallow : (g t).Allows table (.server e)) (hok : keepsTable c (t, ⟨.server e, r⟩))
    (hpoll : poll (besideFiles rest) t e w (.ready r) w') :
    TableAnswers table e r ∧ Coherent table f₀ (tr ++ [(t, ⟨.server e, r⟩)])
      (Function.update g t ((g t).next table (.server e) r)) w' := by
  -- a look into the table sees the one that the run keeps; `sys` calls are disk calls
  -- here and go elsewhere
  have hanswer : (g t).Allows table (.server e) → TableAnswers table e r := by
    intro hallow
    cases e with
    | op o =>
      cases o with
      | driveGet slot =>
        obtain ⟨hr, -⟩ := hpoll
        cases hr
        exact congrFun h.drives slot
      | _ => trivial
    | sys y =>
      cases y with
      | diskRead | diskWrite =>
        cases hg : g t with
        | mk a hold =>
        rw [hg] at hallow
        cases hold <;> cases hallow
      | _ => trivial
    | _ => trivial
  have hfine : FineAnswers table (.server e) r := hanswer hallow
  have hvalid := (h.valid t).next hmounted.once hallow hfine
  have hfree : (g t).hold = .free → ∃ a, (g t).next table (.server e) r = ⟨a, .free⟩ := by
    intro hg
    refine ⟨((g t).next table (.server e) r).asked, ?_⟩
    have hkeep : ((g t).next table (.server e) r).hold = (g t).hold := by
      cases e <;> rfl
    rw [← hg, ← hkeep]
  obtain ⟨a, ha⟩ : ∃ a, (g t).next table (.server e) r = ⟨a, .free⟩ := by
    apply hfree
    cases hg : g t with
    | mk a hold =>
    rw [hg] at hallow
    cases hold with
    | free => rfl
    | held y p => cases hallow
  rw [ha] at hvalid ⊢
  have hdrives : w'.server.drives = w.server.drives := by
    rw [poll_server hpoll]
    exact drives_kept hok w.server
  refine ⟨hanswer hallow, Coherent.record ?_ rfl (hanswer hallow)⟩
  exact (h.frame hdrives (poll_besideFiles hpoll)).move t hvalid.step

section runs

variable [UnicodeTables]

end runs

/-! ## Section 4: Two guests -/

/-- Scripted peers next to the files. -/
def besideScripts : Answers DskFile Disks (Tid → Peer) where
  net := fun t i n => (((n t).answer i).1, Function.update n t ((n t).answer i).2)
  sys := fun y s => (y.answer, s)

def scriptedRest : Env DskFile Unit (Tid → Peer) where
  net := fun t i n r n' => r = ((n t).answer i).1 ∧ n' = Function.update n t ((n t).answer i).2
  sys := fun _ y _ r _ => r = .ready y.answer
  connect := fun _ _ => True
  netStep := fun _ _ => False

/-- The polls of `pollFile` that take no time, computed. -/
def filePoll (t : Tid) : (e : FileEff) → Disks → Poll e.Res × Disks
  | .lock h, s => if s.owner h = none then (.ready (), s.take t h) else (.pending, s)
  | .unlock h, s => (.ready (), s.free h)
  | e, s => (.ready (e.answer s.files).1, { s with files := (e.answer s.files).2 })

theorem filePoll_spec (t : Tid) (e : FileEff) (s : Disks) :
    pollFile t e s (filePoll t e s).1 (filePoll t e s).2 := by
  cases e with
  | lock h =>
    by_cases hfree : s.owner h = none
    · rw [filePoll, if_pos hfree]
      exact .inr ⟨hfree, rfl, rfl⟩
    · rw [filePoll, if_neg hfree]
      exact .inl ⟨rfl, rfl⟩
  | unlock h => exact ⟨rfl, rfl⟩
  | _ => exact .inr ⟨rfl, rfl⟩

/-- Two files of two sectors. -/
def twoFiles : Files where
  paths  := fun _ => none
  bytes  := fun _ => List.replicate 512 0
  opened := 2
  inode  := id
  cursor := fun _ => 0

/-- The first file is on slot 0, and the second one, read-only, on slot 1. -/
def twoImages : Server DskFile :=
  { Server.new DskFile with
    drives := fun slot =>
      if slot = 0 then some ⟨str "a", 0, 2, false⟩
      else if slot = 1 then some ⟨str "b", 1, 2, true⟩ else none }

/-- One guest writes to sector 1 of slot 0, and the other one reads it. -/
def writerAndReader : Tid → Peer
  | .guest 0 => .sending ([0x57, 0, 0, 0, 1] ++ List.replicate 256 7 ++ [7, 0])
  | _ => .sending [0x52, 0, 0, 0, 1]

def fineStart : FineConfig (Tid → Peer) :=
  Config.initial (World.initial twoImages ⟨twoFiles, fun _ => none⟩ writerAndReader)

theorem twoImages_drives {slot : UInt8} {d : DskFile} (h : twoImages.drives slot = some d) :
    slot = 0 ∧ d = ⟨str "a", 0, 2, false⟩ ∨ slot = 1 ∧ d = ⟨str "b", 1, 2, true⟩ := by
  simp only [twoImages] at h
  split at h
  · exact .inl ⟨‹_›, (Option.some_inj.mp h).symm⟩
  · split at h
    · exact .inr ⟨‹_›, (Option.some_inj.mp h).symm⟩
    · cases h

theorem twoFiles_length (file : Handle) : (twoFiles.content file).length = 512 :=
  List.length_replicate

end DriveWire
