import DriveWire.Disk.SectorStore

/-! # Failing Files

    Any file operation of the backend can fail, and a write that fails may
    have put a part of its bytes into the file.  The server goes on after it:
    the mutex is released, the guest is told, and other sessions use the same
    files.  Whatever fails, and in whatever order the sessions run, while
    disks are mounted and unmounted, only the sectors that WRITEs are for are
    ever touched, and no file changes its size. -/

namespace DriveWire

open Async Server Blocks

namespace Faults

/-! ## Section 1: Which disks are called

    A session calls and mounts only disks that it has found in the drive table
    or has opened itself. -/

/-- The state is the list of the disks that the task has got hold of. -/
def holding (D : Type) : Protocol (Eff D) Eff.Res (List D) where
  allows := fun known e =>
    match e with
    | .sys (.diskRead d _) | .sys (.diskWrite d _ _) => d ∈ known
    | .op (.driveInsert _ d) => d ∈ known
    | _ => True
  admits := fun _ _ _ => True
  next := fun known e r =>
    match e, r with
    | .op (.driveGet _), some d => d :: known
    | .sys (.diskOpen _ _), .ok d => d :: known
    | _, _ => known

variable {D α β : Type}

/-- Code that calls no other disk, whatever it has already. -/
def Safe (c : Code D α) : Prop := ∀ known, c.Obeys (holding D) known fun _ _ => True

/-- No disk is called or mounted. -/
def Undemanding : Eff D → Prop
  | .sys (.diskRead _ _) | .sys (.diskWrite _ _ _) => False
  | .op (.driveInsert _ _) => False
  | _ => True

theorem safe_ret (a : α) : Safe (Prog.ret a : Code D α) := fun _ => trivial

theorem Safe.bind {c : Code D α} {f : α → Code D β} (hc : Safe c) (hf : ∀ a, Safe (f a)) :
    Safe (c >>= f) := by
  intro known
  exact Prog.Obeys.bind (hc known) fun a known' _ => hf a known'

theorem Safe.run_bind {x : Handler D α} {f : α → Handler D β} (hx : Safe x.run)
    (hf : ∀ a, Safe (f a).run) : Safe (x >>= f).run := by
  rw [ExceptT.run_bind]
  refine hx.bind fun r => ?_
  cases r with
  | ok a => exact hf a
  | error e => exact safe_ret _

theorem safe_only {c : Code D α} (h : c.Only Undemanding) : Safe c := by
  intro known
  apply h.obeys_always
  intro known' e he
  cases e with
  | sys y => cases y <;> trivial
  | op o => cases o <;> trivial
  | _ => trivial

theorem safe_call {c : Code D α} (hc : Safe c) : Safe (call c).run := by
  rw [run_call]
  exact hc.bind fun _ => safe_ret _

theorem safe_plain {c : Code D α} (h : c.Only PlainEff) : Safe c := by
  apply safe_only
  apply h.mono
  intro e he
  cases e with
  | sys y => cases y <;> trivial
  | op o => cases o <;> trivial
  | _ => trivial

/-- Looking up a slot, and calling the disk that was found. -/
theorem safe_lookup (slot : UInt8) {f : Option D → Code D α} (hnone : Safe (f none))
    (hsome : ∀ d known, d ∈ known → (f (some d)).Obeys (holding D) known fun _ _ => True) :
    Safe (driveAt slot >>= f) := by
  intro known
  rw [driveAt, guarded_eq]
  refine ⟨trivial, fun _ _ => ⟨trivial, fun found _ => ⟨trivial, fun _ _ => ?_⟩⟩⟩
  cases found with
  | none => exact hnone known
  | some d => exact hsome d (d :: known) List.mem_cons_self

theorem safe_fetchSector (slot : UInt8) (lsn : Lsn) :
    Safe (fetchSector slot lsn : Code D Sector) := by
  refine safe_lookup slot (safe_ret _) fun d known hd => ⟨hd, fun r _ => ?_⟩
  cases r <;> trivial

theorem safe_storeSector (slot : UInt8) (lsn : Lsn) (data : Sector) :
    Safe (storeSector slot lsn data : Code D UInt8) := by
  refine safe_lookup slot (safe_ret _) fun d known hd => ⟨hd, fun r _ => ?_⟩
  cases r <;> trivial

theorem safe_handleRead (extended : Bool) : Safe (handleRead (D := D) extended).run := by
  refine (safe_plain (plain_readExact 4)).run_bind fun hdr => ?_
  refine (safe_call (safe_fetchSector _ _)).run_bind fun sector => ?_
  refine (safe_plain (plain_writeAll _)).run_bind fun _ => ?_
  cases extended with
  | true => exact (safe_plain (plain_readExact 2)).run_bind fun _ => safe_plain (plain_writeAll _)
  | false => exact safe_plain (plain_writeAll _)

theorem safe_handleWrite : Safe (handleWrite (D := D)).run := by
  refine (safe_plain (plain_readExact 4)).run_bind fun hdr => ?_
  refine (safe_plain (plain_readExact _)).run_bind fun data => ?_
  refine (safe_plain (plain_readExact 2)).run_bind fun sum => ?_
  split
  · exact safe_plain (plain_writeAll _)
  · exact (safe_call (safe_storeSector _ _ _)).run_bind fun _ => safe_plain (plain_writeAll _)

theorem safe_guestOnce : Safe (guestOnce (D := D)) := by
  refine Safe.bind ?_ fun r => safe_ret _
  rw [runOnce_eq]
  refine fun known => ⟨trivial, fun r _ => ?_⟩
  cases r with
  | error e => trivial
  | ok v =>
    dsimp only
    cases hd : (Decoded.fromByte (byte0 v)).onDisk with
    | false => exact safe_plain (dispatch_plain hd) known
    | true =>
      rcases dispatch_onDisk (D := D) hd with ⟨extended, heq⟩ | heq
      · rw [heq]
        exact safe_handleRead extended known
      · rw [heq]
        exact safe_handleWrite known

theorem undemanding_guarded (m : Mode) {o : Op D} (h : Undemanding (.op o)) :
    (guarded m o).Only Undemanding := by
  rw [guarded_eq]
  exact ⟨trivial, fun _ _ => ⟨h, fun _ _ => ⟨trivial, fun _ _ => trivial⟩⟩⟩

section control

variable [VDisk D] [UnicodeTables]

omit [UnicodeTables] in
/-- MOUNT mounts the disk that it has opened. -/
theorem safe_mountDsk (slot : UInt8) (path : Text) (readOnly : Bool) :
    Safe (mountDsk slot path readOnly : Code D _) := by
  refine fun known => ⟨trivial, fun r _ => ?_⟩
  cases r with
  | error e => trivial
  | ok d =>
    exact ⟨trivial, fun _ _ => ⟨List.mem_cons_self, fun _ _ => ⟨trivial, fun _ _ => trivial⟩⟩⟩

theorem safe_controlMount (fields : List Text) : Safe (controlMount fields : Code D Text) := by
  unfold controlMount
  split
  · split
    · refine (safe_mountDsk _ _ _).bind fun r => ?_
      cases r <;> exact safe_ret _
    · exact safe_ret _
  · exact safe_ret _

omit [VDisk D] in
theorem safe_controlUnmount (fields : List Text) : Safe (controlUnmount fields : Code D Text) := by
  unfold controlUnmount
  split
  · split
    · refine Safe.bind (safe_only ?_) fun _ => safe_ret _
      exact undemanding_guarded .exclusive (o := .driveRemove _) trivial
    · exact safe_ret _
  · exact safe_ret _

omit [UnicodeTables] in
theorem safe_controlStatus : Safe (controlStatus (D := D)) := by
  have hsummary : (vserialSummary (D := D)).Only Undemanding := by
    apply (undemanding_guarded .exclusive (o := .openClone) trivial).bind
    intro opens
    simp [withLock, await, Prog.perform, Undemanding]
  refine Safe.bind ?_ fun drives => (safe_only hsummary).bind fun channels => safe_ret _
  exact (safe_only (undemanding_guarded .shared (o := .driveRows) trivial)).bind fun _ => safe_ret _

theorem safe_controlOnce : Safe (controlOnce (D := D)) := by
  -- MOUNT calls the disk that it has opened, the other verbs call none
  have hcommand : ∀ line, Safe (handleControlCommand line : Code D Text) := by
    intro line
    unfold handleControlCommand
    split
    · exact safe_ret _
    · dsimp only
      split
      · exact safe_controlMount _
      split
      · exact safe_controlUnmount _
      split
      · exact safe_controlStatus
      split <;> exact safe_ret _
  intro known
  refine controlOnce_obeys trivial (fun _ _ => trivial) (fun _ => trivial) (fun _ _ => trivial) ?_
  intro line _ _
  refine (hcommand (trim line) known).mono fun response known' _ => ?_
  exact ⟨trivial, fun _ _ => trivial, trivial⟩

/-- **Every session calls only disks that it has got hold of.** -/
theorem safe_body (t : Tid) : Safe (body t : Code D _) := by
  by_cases hguest : ∃ n, t = .guest n
  · obtain ⟨n, rfl⟩ := hguest
    exact safe_guestOnce
  by_cases hcontrol : ∃ n, t = .control n
  · obtain ⟨n, rfl⟩ := hcontrol
    exact safe_controlOnce
  · apply safe_only
    refine (body_driveFree (fun n h => hguest ⟨n, h⟩) fun n h => hcontrol ⟨n, h⟩).mono ?_
    intro e he
    cases e with
    | sys y => cases he
    | op o => cases o <;> trivial
    | _ => trivial

end control

/-! ## Section 2: Files that fail -/

/-- What a file operation may do.  A seek or a read that fails leaves the
    cursor anywhere.  A write puts the first of its bytes into the file, all
    of them or not, and what it returns need not tell: what was only buffered
    is lost at the flush. -/
def mayAnswer : (e : FileEff) → Files → e.Res → Files → Prop
  | .seek h pos, f, r, f' =>
    (r = .ok () ∧ f' = f.setCursor h pos.toNat) ∨
      ∃ x pos', r = .error x ∧ f' = f.setCursor h pos'
  | .readExact h n, f, r, f' =>
    (r, f') = (FileEff.readExact h n).answer f ∨
      ∃ x pos', r = .error x ∧ f' = f.setCursor h pos'
  | .writeAll h bs, f, _, f' => ∃ k,
    f' = (f.setBytes (f.inode h) (overwrite 0 (f.content h) (f.cursor h) (bs.take k))).setCursor h
      (f.cursor h + (bs.take k).length)
  | .flush _, f, _, f' => f' = f
  | .openFile path write, f, r, f' =>
    (r, f') = (FileEff.openFile path write).answer f ∨ ∃ x, r = .error x ∧ f' = f
  | .metadataLen h, f, r, f' =>
    f' = f ∧ (r = ((FileEff.metadataLen h).answer f).1 ∨ ∃ x, r = .error x)
  | .lock _, f, _, f' => f' = f
  | .unlock _, f, _, f' => f' = f

/-- Polling task `t` at an effect on files that may fail. -/
def pollFaulty (t : Tid) : (e : FileEff) → Disks → Poll e.Res → Disks → Prop
  | .lock h, s, r, s' =>
    (r = .pending ∧ s' = s) ∨ (s.owner h = none ∧ r = .ready () ∧ s' = s.take t h)
  | .unlock h, s, r, s' => r = .ready () ∧ s' = s.free h
  | e, s, r, s' =>
    (r = .pending ∧ s' = s) ∨
      ∃ a f, mayAnswer e s.files a f ∧ r = .ready a ∧ s' = { s with files := f }

variable {N : Type}

def pollFaultyFine (rest : Env DskFile Unit N) (t : Tid) :
    (e : FineEff) → World DskFile Disks N → Poll e.Res → World DskFile Disks N → Prop
  | .server e, w, r, w' => poll (besideFiles rest) t e w r w'
  | .disk _ e, w, r, w' => ∃ s, pollFaulty t e w.sys r s ∧ w' = { w with sys := s }

/-- The server with all its sessions, on files that may fail. -/
def faultySystem [UnicodeTables] (rest : Env DskFile Unit N) :
    Runtime Tid FineEff FineEff.Res (World DskFile Disks N) Exit where
  body     := fun t => (Server.body t).translate onFiles
  poll     := pollFaultyFine rest
  mayStart := mayStart (besideFiles rest)
  atExit   := fun t w => { w with exited := t :: w.exited }
  ambient  := fun w w' => ∃ n, rest.netStep w.net n ∧ w' = { w with net := n }

/-! ## Section 3: A disk call that may fail -/

/-- The disk and the sector of a call that passes the tests before its lock. -/
inductive Target : Sys DskFile → DskFile → Lsn → Prop where
  | read  : ∀ {d lsn}, lsn.val < d.sectorCount → Target (.diskRead d lsn) d lsn
  | write : ∀ {d lsn} data, d.readOnly = false → lsn.val < d.sectorCount →
      Target (.diskWrite d lsn data) d lsn

inductive Progress where
  | locked | sought | moved

/-- Whether a task is in a disk call. -/
inductive Stage where
  | free   : Stage
  | opened : Text → Bool → Handle → Stage
  | held   : Sys DskFile → Progress → Stage

structure Doing where
  known : List DskFile
  stage : Stage

def Stage.Allows (known : List DskFile) : Stage → FineEff → Prop
  | .free, .server (.op (.driveInsert _ d)) => d ∈ known
  | .free, .server e => Direct e
  | .free, .disk y (.lock h) => ∃ d lsn, d ∈ known ∧ Target y d lsn ∧ h = d.file
  | .free, .disk (.diskOpen path readOnly) (.openFile path' write) =>
    path' = path ∧ write = !readOnly
  | .opened _ _ h, .disk _ (.metadataLen h') => h' = h
  | .held y .locked, .disk y' (.seek h pos) =>
    y' = y ∧ ∃ d lsn, Target y d lsn ∧ h = d.file ∧ pos = DskFile.offset lsn
  | .held (.diskRead d lsn) .sought, .disk y' (.readExact h _) =>
    y' = .diskRead d lsn ∧ h = d.file ∧ Target (.diskRead d lsn) d lsn
  | .held (.diskWrite d lsn data) .sought, .disk y' (.writeAll h bs) =>
    y' = .diskWrite d lsn data ∧ h = d.file ∧ bs = data.toList ∧
      Target (.diskWrite d lsn data) d lsn
  | .held _ .moved, .disk _ (.flush _) => True
  | .held y .moved, .disk y' (.unlock h) => y' = y ∧ ∃ d lsn, Target y d lsn ∧ h = d.file
  | _, _ => False

/-- The stage after an effect on files. -/
def Stage.next (s : Stage) (y : Sys DskFile) : (e : FileEff) → e.Res → Stage
  | .lock _, _ => .held y .locked
  | .seek _ _, .ok _ => .held y .sought
  | .seek _ _, .error _ => .held y .moved
  | .readExact _ _, _ => .held y .moved
  | .writeAll _ _, _ => .held y .moved
  | .flush _, _ => s
  | .unlock _, _ => .free
  | .openFile path write, .ok h => .opened path (!write) h
  | .openFile _ _, .error _ => .free
  | .metadataLen _, _ => .free

/-- The disk that is opened when its length is known. -/
def Stage.found : Stage → (e : FileEff) → e.Res → List DskFile
  | .opened path readOnly h, .metadataLen _, .ok len =>
    [⟨path, h, (len / 256).toUInt32, readOnly⟩]
  | _, _, _ => []

def Doing.next (st : Doing) : (e : FineEff) → e.Res → Doing
  | .server (.op (.driveGet _)), some d => ⟨d :: st.known, st.stage⟩
  | .server _, _ => st
  | .disk y e, r => ⟨st.stage.found e r ++ st.known, st.stage.next y e r⟩

/-- Nothing is relied on. -/
def failing : Protocol FineEff FineEff.Res Doing where
  allows := fun st e => st.stage.Allows st.known e
  admits := fun _ _ _ => True
  next   := Doing.next

/-- A read of a disk that is known, wherever it fails. -/
theorem read_failing {known : List DskFile} {d : DskFile} {lsn : Lsn} (hd : d ∈ known) :
    (inCall (.diskRead d lsn) (d.read lsn)).Obeys failing ⟨known, .free⟩
      fun _ st => st = ⟨known, .free⟩ := by
  rw [DskFile.read]
  by_cases hlsn : lsn.val ≥ d.sectorCount
  · rw [if_pos hlsn]
    exact rfl
  rw [if_neg hlsn]
  have htarget : Target (.diskRead d lsn) d lsn := .read (UInt32.not_le.mp hlsn)
  refine ⟨⟨d, lsn, hd, htarget, rfl⟩, fun _ _ => ⟨⟨rfl, d, lsn, htarget, rfl, rfl⟩, fun r _ => ?_⟩⟩
  cases r with
  | error x => exact ⟨⟨rfl, d, lsn, htarget, rfl⟩, fun _ _ => rfl⟩
  | ok u =>
    refine ⟨⟨rfl, rfl, htarget⟩, fun r _ => ?_⟩
    cases r <;> exact ⟨⟨rfl, d, lsn, htarget, rfl⟩, fun _ _ => rfl⟩

/-- A write to one. -/
theorem write_failing {known : List DskFile} {d : DskFile} {lsn : Lsn} {data : Sector}
    (hd : d ∈ known) : (inCall (.diskWrite d lsn data) (d.write lsn data)).Obeys failing
      ⟨known, .free⟩ fun _ st => st = ⟨known, .free⟩ := by
  rw [DskFile.write]
  by_cases hro : d.readOnly = true
  · rw [if_pos hro]
    exact rfl
  rw [if_neg hro]
  by_cases hlsn : lsn.val ≥ d.sectorCount
  · rw [if_pos hlsn]
    exact rfl
  rw [if_neg hlsn]
  have htarget : Target (.diskWrite d lsn data) d lsn :=
    .write data (by simpa using hro) (UInt32.not_le.mp hlsn)
  refine ⟨⟨d, lsn, hd, htarget, rfl⟩, fun _ _ => ⟨⟨rfl, d, lsn, htarget, rfl, rfl⟩, fun r _ => ?_⟩⟩
  cases r with
  | error x => exact ⟨⟨rfl, d, lsn, htarget, rfl⟩, fun _ _ => rfl⟩
  | ok u =>
    refine ⟨⟨rfl, rfl, rfl, htarget⟩, fun r _ => ?_⟩
    cases r with
    | error x => exact ⟨⟨rfl, d, lsn, htarget, rfl⟩, fun _ _ => rfl⟩
    | ok u =>
      refine ⟨trivial, fun r _ => ?_⟩
      cases r <;> exact ⟨⟨rfl, d, lsn, htarget, rfl⟩, fun _ _ => rfl⟩

/-- Opening a file. -/
theorem open_failing (known : List DskFile) (path : Text) (readOnly : Bool) :
    (inCall (.diskOpen path readOnly) (DskFile.open path readOnly)).Obeys failing
      ⟨known, .free⟩ fun r st =>
        st = ⟨(holding DskFile).next known (.sys (.diskOpen path readOnly)) r, .free⟩ := by
  refine ⟨⟨rfl, rfl⟩, fun r _ => ?_⟩
  cases r with
  | error x => exact rfl
  | ok h =>
    refine ⟨rfl, fun r _ => ?_⟩
    cases r with
    | error x => exact rfl
    | ok len =>
      show Doing.mk (⟨path, h, (len / 256).toUInt32, !!readOnly⟩ :: known) .free = _
      rw [Bool.not_not]
      rfl

theorem onFiles_failing (known : List DskFile) (e : Eff DskFile)
    (h : (holding DskFile).allows known e) :
    (onFiles e).Obeys failing ⟨known, .free⟩ fun r st =>
      True ∧ st = ⟨(holding DskFile).next known e r, .free⟩ := by
  cases e with
  | sys y =>
    cases y with
    | diskRead d lsn => exact (read_failing h).mono fun _ _ hst => ⟨trivial, hst⟩
    | diskWrite d lsn data => exact (write_failing h).mono fun _ _ hst => ⟨trivial, hst⟩
    | diskOpen path readOnly =>
      exact (open_failing known path readOnly).mono fun _ _ hst => ⟨trivial, hst⟩
    | _ => exact ⟨trivial, fun _ _ => ⟨trivial, rfl⟩⟩
  | op o =>
    cases o with
    | driveInsert slot d => exact ⟨h, fun _ _ => ⟨trivial, rfl⟩⟩
    | driveGet slot =>
      refine ⟨trivial, fun r _ => ⟨trivial, ?_⟩⟩
      cases r <;> rfl
    | _ => exact ⟨trivial, fun _ _ => ⟨trivial, rfl⟩⟩
  | _ => exact ⟨trivial, fun _ _ => ⟨trivial, rfl⟩⟩

theorem body_failing [UnicodeTables] (t : Tid) :
    ((Server.body t).translate onFiles).Obeys failing ⟨[], .free⟩
      fun _ st => st.stage = .free := by
  have hsafe : ((Server.body t).translate onFiles).Obeys failing ⟨[], .free⟩
      fun _ st => ∃ known, st = ⟨known, .free⟩ ∧ True :=
    Prog.Obeys.translate onFiles_failing (safe_body (D := DskFile) t [])
  refine hsafe.mono fun a st hst => ?_
  obtain ⟨known, rfl, -⟩ := hst
  rfl

/-! ## Section 4: Damage -/

/-- The open file of a disk exists, and has all the sectors that the disk
    counts. -/
structure Fits (f : Files) (d : DskFile) : Prop where
  opened : d.file < f.opened
  whole  : d.sectorCount.toNat * sectorSize ≤ (f.content d.file).length

/-- A WRITE call of the run wrote this byte at this place: it belongs to the
    sector that the call names. -/
def Wrote (f : Files) (tr : List FineLabel) (i : Inode) (pos : Nat) (b : UInt8) : Prop :=
  ∃ t d lsn data r j, (t, ⟨.disk (.diskWrite d lsn data) (.writeAll d.file data.toList), r⟩) ∈ tr ∧
    Target (.diskWrite d lsn data) d lsn ∧ d.file < f.opened ∧ f.inode d.file = i ∧
    pos = lsn.val.toNat * sectorSize + j ∧ data.toList[j]? = some b

/-- No file has changed its size, and every byte that has changed was
    written by a WRITE call for its sector. -/
def Damage (f₀ : Files) (tr : List FineLabel) (f : Files) : Prop :=
  ∀ i, (f.bytes i).length = (f₀.bytes i).length ∧
    ∀ pos, (f.bytes i)[pos]? = (f₀.bytes i)[pos]? ∨
      ∃ b, (f.bytes i)[pos]? = some b ∧ Wrote f tr i pos b

/-- What files only do: they are opened, and keep their sizes. -/
structure Extends (f f' : Files) : Prop where
  opened : f.opened ≤ f'.opened
  inode  : ∀ h, h < f.opened → f'.inode h = f.inode h
  length : ∀ i, (f'.bytes i).length = (f.bytes i).length

theorem Extends.refl (f : Files) : Extends f f := ⟨le_rfl, fun _ _ => rfl, fun _ => rfl⟩

theorem extends_setCursor (f : Files) (h : Handle) (pos : Nat) : Extends f (f.setCursor h pos) :=
  ⟨le_rfl, fun _ _ => rfl, fun _ => rfl⟩

theorem Fits.mono {f f' : Files} {d : DskFile} (h : Fits f d) (hext : Extends f f') :
    Fits f' d where
  opened := h.opened.trans_le hext.opened
  whole  := by
    have hlen := hext.length (f.inode d.file)
    rw [Files.content, hext.inode d.file h.opened, hlen]
    exact h.whole

theorem Wrote.mono {f f' : Files} {tr tr' : List FineLabel} {i : Inode} {pos : Nat} {b : UInt8}
    (h : Wrote f tr i pos b) (hext : Extends f f') (htr : tr ⊆ tr') : Wrote f' tr' i pos b := by
  obtain ⟨t, d, lsn, data, r, j, hmem, htarget, hopened, hinode, hpos, hb⟩ := h
  exact ⟨t, d, lsn, data, r, j, htr hmem, htarget, hopened.trans_le hext.opened,
    (hext.inode _ hopened).trans hinode, hpos, hb⟩

/-- Where the bytes stay, so does the damage. -/
theorem Damage.mono {f₀ f f' : Files} {tr tr' : List FineLabel} (h : Damage f₀ tr f)
    (hext : Extends f f') (hbytes : f'.bytes = f.bytes) (htr : tr ⊆ tr') : Damage f₀ tr' f' := by
  intro i
  rw [hbytes]
  refine ⟨(h i).1, fun pos => ?_⟩
  rcases (h i).2 pos with hsame | ⟨b, hb, hwrote⟩
  · exact .inl hsame
  · exact .inr ⟨b, hb, hwrote.mono hext htr⟩

/-- A sector of a disk lies inside of its file. -/
theorem Fits.sector {f : Files} {d : DskFile} (h : Fits f d) {lsn : Lsn}
    (hlsn : lsn.val < d.sectorCount) :
    lsn.val.toNat * sectorSize + sectorSize ≤ (f.content d.file).length := by
  have hlt : lsn.val.toNat < d.sectorCount.toNat := UInt32.lt_iff_toNat_lt.mp hlsn
  have hle : (lsn.val.toNat + 1) * sectorSize ≤ d.sectorCount.toNat * sectorSize :=
    Nat.mul_le_mul_right _ hlt
  rw [Nat.succ_mul] at hle
  exact hle.trans h.whole

/-- The files after the first bytes of a sector were written. -/
def torn (f : Files) (h : Handle) (pos : Nat) (bs : List UInt8) : Files :=
  (f.setBytes (f.inode h) (overwrite 0 (f.content h) pos bs)).setCursor h (pos + bs.length)

theorem torn_bytes (f : Files) (h : Handle) (pos : Nat) (bs : List UInt8) (i : Inode) :
    (torn f h pos bs).bytes i =
      if i = f.inode h then overwrite 0 (f.content h) pos bs else f.bytes i := by
  by_cases hi : i = f.inode h
  · rw [if_pos hi, hi]
    exact Files.setBytes_bytes ..
  · rw [if_neg hi]
    exact Files.setBytes_bytes_ne _ _ hi

theorem extends_torn {f : Files} {h : Handle} {pos : Nat} {bs : List UInt8}
    (hle : pos + bs.length ≤ (f.content h).length) : Extends f (torn f h pos bs) where
  opened := le_rfl
  inode  := fun _ _ => rfl
  length := fun i => by
    rw [torn_bytes]
    split
    · rename_i hi
      rw [length_overwrite hle, hi]
      rfl
    · rfl

/-- Every place keeps its byte, or has one of those that were written. -/
theorem torn_getElem? {f : Files} {h : Handle} {start : Nat} {bs : List UInt8}
    (hle : start + bs.length ≤ (f.content h).length) (i : Inode) (pos : Nat) :
    ((torn f h start bs).bytes i)[pos]? = (f.bytes i)[pos]? ∨
      i = f.inode h ∧ ∃ j b, pos = start + j ∧ bs[j]? = some b ∧
        ((torn f h start bs).bytes i)[pos]? = some b := by
  rw [torn_bytes]
  by_cases hi : i = f.inode h
  · rw [if_pos hi, getElem?_overwrite hle]
    by_cases hinside : start ≤ pos ∧ pos < start + bs.length
    · obtain ⟨j, rfl⟩ := Nat.exists_eq_add_of_le hinside.1
      have hj : j < bs.length := by omega
      have hb : bs[j]? = some bs[j] := List.getElem?_eq_getElem hj
      rw [if_pos hinside, Nat.add_sub_cancel_left]
      exact .inr ⟨hi, j, bs[j], rfl, hb, hb⟩
    · rw [if_neg hinside, hi]
      exact .inl rfl
  · rw [if_neg hi]
    exact .inl rfl

/-- **A torn write** damages the sector that it is for, and nothing else. -/
theorem Damage.step {f₀ f : Files} {tr : List FineLabel} (h : Damage f₀ tr f) {d : DskFile}
    {lsn : Lsn} {data : Sector} {t : Tid} {r : (FileEff.writeAll d.file data.toList).Res}
    (hfits : Fits f d) (htarget : Target (.diskWrite d lsn data) d lsn) (k : Nat) :
    Extends f (torn f d.file (lsn.val.toNat * sectorSize) (data.toList.take k)) ∧
    Damage f₀ (tr ++ [(t, ⟨.disk (.diskWrite d lsn data) (.writeAll d.file data.toList), r⟩)])
      (torn f d.file (lsn.val.toNat * sectorSize) (data.toList.take k)) := by
  have hlsn : lsn.val < d.sectorCount := by
    cases htarget
    assumption
  have hle : lsn.val.toNat * sectorSize + (data.toList.take k).length ≤
      (f.content d.file).length := by
    have hsector := hfits.sector hlsn
    have hlen : (data.toList.take k).length ≤ sectorSize := by simp
    omega
  have hext := extends_torn hle
  refine ⟨hext, fun i => ⟨(hext.length i).trans (h i).1, fun pos => ?_⟩⟩
  -- a byte at another place is as before; one inside is a byte of the sector's data
  rcases torn_getElem? hle i pos with hsame | ⟨hi, j, b, hpos, hj, hb⟩
  · rw [hsame]
    rcases (h i).2 pos with hold | ⟨b, hb, hwrote⟩
    · exact .inl hold
    · exact .inr ⟨b, hb, hwrote.mono hext (List.subset_append_left _ _)⟩
  · have hdata : data.toList[j]? = some b := by
      rw [List.getElem?_take] at hj
      split at hj
      · exact hj
      · cases hj
    exact .inr ⟨b, hb, t, d, lsn, data, r, j, List.mem_append_right _ (List.mem_singleton.mpr rfl),
      htarget, hfits.opened, hi.symm, hpos, hdata⟩

/-! ## Section 5: The invariant -/

/-- What holds along a run from the files `f₀`. -/
structure Confined (f₀ : Files) (tr : List FineLabel) (g : Tid → Doing)
    (w : World DskFile Disks N) : Prop where
  mounted : ∀ slot d, w.server.drives slot = some d → Fits w.sys.files d
  known   : ∀ t d, d ∈ (g t).known → Fits w.sys.files d
  opened  : ∀ t path ro h, (g t).stage = .opened path ro h → h < w.sys.files.opened
  /-- Who is in a call has the mutex, and nobody moves the cursor. -/
  held    : ∀ t y p d lsn, (g t).stage = .held y p → Target y d lsn →
    Fits w.sys.files d ∧ w.sys.owner d.file = some t ∧
      (p = .sought → w.sys.files.cursor d.file = lsn.val.toNat * sectorSize)
  damage  : Damage f₀ tr w.sys.files

variable {f₀ : Files} {tr : List FineLabel} {g : Tid → Doing} {w w' : World DskFile Disks N}

/-- What the tasks know stays true while files are opened. -/
theorem Confined.move (h : Confined f₀ tr g w) {tr' : List FineLabel} {t : Tid} {st : Doing}
    (hext : Extends w.sys.files w'.sys.files)
    (hmounted : ∀ slot d, w'.server.drives slot = some d → Fits w'.sys.files d)
    (hknown : ∀ d, d ∈ st.known → Fits w'.sys.files d)
    (hopened : ∀ path ro handle, st.stage = .opened path ro handle →
      handle < w'.sys.files.opened)
    (hown : ∀ y p d lsn, st.stage = .held y p → Target y d lsn → Fits w'.sys.files d ∧
      w'.sys.owner d.file = some t ∧
      (p = .sought → w'.sys.files.cursor d.file = lsn.val.toNat * sectorSize))
    (hothers : ∀ file u, u ≠ t → file < w.sys.files.opened → w.sys.owner file = some u →
      w'.sys.owner file = some u ∧ w'.sys.files.cursor file = w.sys.files.cursor file)
    (hdamage : Damage f₀ tr' w'.sys.files) : Confined f₀ tr' (Function.update g t st) w' where
  mounted := hmounted
  known   := by
    intro u d hd
    by_cases hu : u = t
    · subst hu
      rw [Function.update_self] at hd
      exact hknown d hd
    · rw [Function.update_of_ne hu] at hd
      exact (h.known u d hd).mono hext
  opened  := by
    intro u path ro handle hstage
    by_cases hu : u = t
    · subst hu
      rw [Function.update_self] at hstage
      exact hopened path ro handle hstage
    · rw [Function.update_of_ne hu] at hstage
      exact (h.opened u path ro handle hstage).trans_le hext.opened
  held    := by
    -- the cursor of a file that another task has locked has not moved
    intro u y p d lsn hstage htarget
    by_cases hu : u = t
    · subst hu
      rw [Function.update_self] at hstage
      exact hown y p d lsn hstage htarget
    · rw [Function.update_of_ne hu] at hstage
      obtain ⟨hfits, howner, hcursor⟩ := h.held u y p d lsn hstage htarget
      obtain ⟨howner', hcursor'⟩ := hothers d.file u hu hfits.opened howner
      exact ⟨hfits.mono hext, howner', fun hp => hcursor'.trans (hcursor hp)⟩
  damage  := hdamage

/-- A step that leaves the files alone. -/
theorem Confined.still (h : Confined f₀ tr g w) {tr' : List FineLabel} {t : Tid} {st : Doing}
    (htr : tr ⊆ tr') (hsys : w'.sys = w.sys)
    (hmounted : ∀ slot d, w'.server.drives slot = some d → Fits w.sys.files d)
    (hknown : ∀ d, d ∈ st.known → Fits w.sys.files d)
    (hstage : st.stage = (g t).stage ∨ st.stage = .free) :
    Confined f₀ tr' (Function.update g t st) w' := by
  have hfiles : w'.sys.files = w.sys.files := congrArg Disks.files hsys
  have howner : w'.sys.owner = w.sys.owner := congrArg Disks.owner hsys
  refine h.move ?_ ?_ ?_ ?_ ?_ ?_ ?_
  · rw [hfiles]
    exact .refl _
  · rwa [hfiles]
  · rwa [hfiles]
  · intro path ro handle heq
    rw [hfiles]
    -- the task is where it was, or in no call at all
    rcases hstage with hstage | hstage
    · exact h.opened t path ro handle (hstage ▸ heq)
    · rw [hstage] at heq
      cases heq
  · intro y p d lsn heq htarget
    rw [hfiles, howner]
    rcases hstage with hstage | hstage
    · exact h.held t y p d lsn (hstage ▸ heq) htarget
    · rw [hstage] at heq
      cases heq
  · intro file u _ _ hu
    rw [hfiles, howner]
    exact ⟨hu, rfl⟩
  · rw [hfiles]
    exact h.damage.mono (.refl _) rfl htr

theorem Target.unique {y : Sys DskFile} {d d' : DskFile} {lsn lsn' : Lsn} (h : Target y d lsn)
    (h' : Target y d' lsn') : d' = d ∧ lsn' = lsn := by
  cases h <;> cases h' <;> exact ⟨rfl, rfl⟩

/-- A step of a call, under the mutex of its file. -/
theorem Confined.inCall (h : Confined f₀ tr g w) {tr' : List FineLabel} {t : Tid}
    {y : Sys DskFile} {p p' : Progress} {d : DskFile} {lsn : Lsn} {f : Files}
    (hstage : (g t).stage = .held y p) (htarget : Target y d lsn)
    (hext : Extends w.sys.files f)
    (hcursor : ∀ file, file ≠ d.file → f.cursor file = w.sys.files.cursor file)
    (hsought : p' = .sought → f.cursor d.file = lsn.val.toNat * sectorSize)
    (hdamage : Damage f₀ tr' f) :
    Confined f₀ tr' (Function.update g t ⟨(g t).known, .held y p'⟩)
      { w with sys := { w.sys with files := f } } := by
  obtain ⟨hfits, howner, -⟩ := h.held t y p d lsn hstage htarget
  refine h.move hext (fun slot d hd => (h.mounted slot d hd).mono hext)
    (fun d hd => (h.known t d hd).mono hext) (fun path ro handle heq => by cases heq) ?_ ?_ hdamage
  · intro y' p'' d' lsn' heq htarget'
    cases heq
    obtain ⟨rfl, rfl⟩ := htarget.unique htarget'
    exact ⟨hfits.mono hext, howner, hsought⟩
  · intro file u hu _ hfile
    refine ⟨hfile, hcursor file ?_⟩
    rintro rfl
    rw [howner] at hfile
    exact hu (Option.some_inj.mp hfile).symm

theorem setCursor_ne (f : Files) {h file : Handle} (hne : file ≠ h) (pos : Nat) :
    (f.setCursor h pos).cursor file = f.cursor file :=
  Function.update_of_ne hne _ _

/-- The mutex of a disk is taken. -/
theorem Confined.lock (h : Confined f₀ tr g w) {tr' : List FineLabel} (htr : tr ⊆ tr') {t : Tid}
    {y : Sys DskFile} {d : DskFile} {lsn : Lsn} (hd : d ∈ (g t).known) (htarget : Target y d lsn)
    (hfree : w.sys.owner d.file = none) :
    Confined f₀ tr' (Function.update g t ⟨(g t).known, .held y .locked⟩)
      { w with sys := w.sys.take t d.file } := by
  refine h.move (.refl _) h.mounted (h.known t) (fun path ro handle heq => by cases heq) ?_ ?_
    (h.damage.mono (.refl _) rfl htr)
  · intro y' p' d' lsn' heq htarget'
    cases heq
    obtain ⟨rfl, rfl⟩ := htarget.unique htarget'
    exact ⟨h.known t d' hd, Function.update_self .., fun hp => by cases hp⟩
  · intro file u _ _ hfile
    refine ⟨?_, rfl⟩
    have hne : file ≠ d.file := by
      rintro rfl
      rw [hfree] at hfile
      cases hfile
    show Function.update w.sys.owner d.file (some t) file = some u
    rw [Function.update_of_ne hne]
    exact hfile

/-- The mutex is given back, whether the call has failed or not. -/
theorem Confined.unlock (h : Confined f₀ tr g w) {tr' : List FineLabel} (htr : tr ⊆ tr') {t : Tid}
    {y : Sys DskFile} {p : Progress} {d : DskFile} {lsn : Lsn}
    (hstage : (g t).stage = .held y p) (htarget : Target y d lsn) :
    Confined f₀ tr' (Function.update g t ⟨(g t).known, .free⟩)
      { w with sys := w.sys.free d.file } := by
  obtain ⟨-, howner, -⟩ := h.held t y p d lsn hstage htarget
  refine h.move (.refl _) h.mounted (h.known t) (fun path ro handle heq => by cases heq)
    (fun y' p' d' lsn' heq => by cases heq) ?_ (h.damage.mono (.refl _) rfl htr)
  intro file u hu _ hfile
  refine ⟨?_, rfl⟩
  have hne : file ≠ d.file := by
    rintro rfl
    rw [howner] at hfile
    exact hu (Option.some_inj.mp hfile).symm
  show Function.update w.sys.owner d.file none file = some u
  rw [Function.update_of_ne hne]
  exact hfile

theorem extends_openFile (path : Text) (write : Bool) (f : Files) :
    Extends f ((FileEff.openFile path write).answer f).2 ∧
      ((FileEff.openFile path write).answer f).2.bytes = f.bytes ∧
      (∀ file, file < f.opened →
        ((FileEff.openFile path write).answer f).2.cursor file = f.cursor file) ∧
      ∀ h, ((FileEff.openFile path write).answer f).1 = .ok h →
        h < ((FileEff.openFile path write).answer f).2.opened := by
  rw [FileEff.answer]
  cases hpath : f.paths path with
  | none => exact ⟨.refl _, rfl, fun _ _ => rfl, fun h heq => by cases heq⟩
  | some i =>
    refine ⟨⟨Nat.le_succ _, fun h hlt => ?_, fun _ => rfl⟩, rfl, fun file hlt => ?_, ?_⟩
    · exact Function.update_of_ne (Nat.ne_of_lt hlt) _ _
    · exact Function.update_of_ne (Nat.ne_of_lt hlt) _ _
    · intro h heq
      cases heq
      exact Nat.lt_succ_self _

/-- A file is opened, or not. -/
theorem Confined.openFile (h : Confined f₀ tr g w) {tr' : List FineLabel} (htr : tr ⊆ tr')
    {t : Tid} {path : Text} {write : Bool} {r : Except IoError Handle} {f : Files} {stage : Stage}
    (hmay : mayAnswer (.openFile path write) w.sys.files r f)
    (hstage : stage = .free ∨ ∃ handle path' ro, r = .ok handle ∧ stage = .opened path' ro handle) :
    Confined f₀ tr' (Function.update g t ⟨(g t).known, stage⟩)
      { w with sys := { w.sys with files := f } } := by
  -- what the two outcomes have in common
  have hboth : Extends w.sys.files f ∧ f.bytes = w.sys.files.bytes ∧
      (∀ file, file < w.sys.files.opened → f.cursor file = w.sys.files.cursor file) ∧
      ∀ handle, r = .ok handle → handle < f.opened := by
    obtain ⟨hext, hbytes, hcursor, hnew⟩ := extends_openFile path write w.sys.files
    rcases hmay with heq | ⟨x, hr, rfl⟩
    · rw [← heq] at hext hbytes hcursor hnew
      exact ⟨hext, hbytes, hcursor, hnew⟩
    · exact ⟨.refl _, rfl, fun _ _ => rfl, fun handle hok => by rw [hr] at hok; cases hok⟩
  obtain ⟨hext, hbytes, hcursor, hnew⟩ := hboth
  refine h.move hext (fun slot d hd => (h.mounted slot d hd).mono hext)
    (fun d hd => (h.known t d hd).mono hext) ?_ ?_ ?_ (h.damage.mono hext hbytes htr)
  · intro path' ro handle heq
    rcases hstage with hfree | ⟨handle', path'', ro', hr, hopened⟩
    · rw [hfree] at heq
      cases heq
    · rw [hopened] at heq
      cases heq
      exact hnew handle hr
  · intro y p d lsn heq
    rcases hstage with hfree | ⟨handle', path'', ro', hr, hopened⟩
    · rw [hfree] at heq
      cases heq
    · rw [hopened] at heq
      cases heq
  · intro file u _ hlt hfile
    exact ⟨hfile, hcursor file hlt⟩

/-- The disk that was opened counts no more sectors than its file has. -/
theorem fits_opened {f : Files} {h : Handle} (hopened : h < f.opened) (path : Text) (ro : Bool) :
    Fits f ⟨path, h, (UInt64.ofNat (f.content h).length / 256).toUInt32, ro⟩ where
  opened := hopened
  whole  := by
    have hsize : (256 : UInt64).toNat = sectorSize := rfl
    have hmod := Nat.mod_le (f.content h).length (2 ^ 64)
    have hwrap := Nat.mod_le ((f.content h).length % 2 ^ 64 / sectorSize) (2 ^ 32)
    have hdiv := Nat.div_mul_le_self ((f.content h).length % 2 ^ 64) sectorSize
    dsimp only
    rw [UInt64.toNat_toUInt32, UInt64.toNat_div, UInt64.toNat_ofNat', hsize]
    exact (Nat.mul_le_mul_right _ hwrap).trans (hdiv.trans hmod)

/-! ## Section 6: Every run -/

/-- An effect on files, of a task that is in the stage for it. -/
theorem Confined.disk_ready (h : Confined f₀ tr g w) {t : Tid} {y : Sys DskFile} {e : FileEff}
    {r : e.Res} {s : Disks} (hallow : (g t).stage.Allows (g t).known (.disk y e))
    (hpoll : pollFaulty t e w.sys (.ready r) s) :
    Confined f₀ (tr ++ [(t, ⟨.disk y e, r⟩)])
      (Function.update g t ((g t).next (.disk y e) r)) { w with sys := s } := by
  have htr : tr ⊆ tr ++ [((t, ⟨.disk y e, r⟩) : FineLabel)] := List.subset_append_left _ _
  cases hstage : (g t).stage with
  | free =>
    rw [hstage] at hallow
    cases e with
    | lock file =>
      obtain ⟨d, lsn, hd, htarget, rfl⟩ := hallow
      rcases hpoll with ⟨hr, -⟩ | ⟨hfree, -, rfl⟩
      · cases hr
      · have hnext : (g t).next (.disk y (.lock d.file)) r = ⟨(g t).known, .held y .locked⟩ := by
          simp [Doing.next, hstage, Stage.found, Stage.next]
        rw [hnext]
        exact h.lock htr hd htarget hfree
    | openFile path write =>
      rcases hpoll with ⟨hr, -⟩ | ⟨a, f, hmay, hr, rfl⟩
      · cases hr
      cases hr
      cases r with
      | error x =>
        have hnext : (g t).next (.disk y (.openFile path write)) (.error x) =
            ⟨(g t).known, .free⟩ := by
          simp [Doing.next, hstage, Stage.found, Stage.next]
        rw [hnext]
        exact h.openFile htr hmay (.inl rfl)
      | ok file =>
        have hnext : (g t).next (.disk y (.openFile path write)) (.ok file) =
            ⟨(g t).known, .opened path (!write) file⟩ := by
          simp [Doing.next, hstage, Stage.found, Stage.next]
        rw [hnext]
        exact h.openFile htr hmay (.inr ⟨file, path, !write, rfl, rfl⟩)
    | _ => cases y <;> cases hallow
  | opened path ro file =>
    rw [hstage] at hallow
    cases e with
    | metadataLen file' =>
      obtain rfl : file' = file := hallow
      rcases hpoll with ⟨hr, -⟩ | ⟨a, f, ⟨rfl, ha⟩, hr, rfl⟩
      · cases hr
      cases hr
      have hopened := h.opened t path ro file' hstage
      refine h.still htr rfl h.mounted ?_ (.inr rfl)
      intro d hd
      rw [Doing.next, hstage] at hd
      rcases ha with rfl | ⟨x, rfl⟩
      · rcases List.mem_append.mp hd with hd | hd
        · rw [List.mem_singleton.mp hd]
          exact fits_opened hopened path ro
        · exact h.known t d hd
      · exact h.known t d hd
    | _ => cases hallow
  | held y' p =>
    rw [hstage] at hallow
    -- the step keeps the call, and moves its progress to `p'`
    have hsame : ∀ p', (g t).stage.next y e r = .held y p' → (g t).stage.found e r = [] →
        (g t).next (.disk y e) r = ⟨(g t).known, .held y p'⟩ := by
      intro p' hp' hnone
      simp [Doing.next, hp', hnone]
    cases p with
    | locked =>
      cases e with
      | seek file pos =>
        obtain ⟨rfl, d, lsn, htarget, rfl, rfl⟩ := hallow
        rcases hpoll with ⟨hr, -⟩ | ⟨a, f, hmay, hr, rfl⟩
        · cases hr
        cases hr
        rcases hmay with ⟨rfl, rfl⟩ | ⟨x, pos', rfl, rfl⟩
        · rw [hsame .sought rfl (by rw [hstage]; rfl)]
          refine h.inCall hstage htarget (extends_setCursor _ _ _)
            (fun file hne => setCursor_ne _ hne _) (fun _ => ?_)
            (h.damage.mono (extends_setCursor _ _ _) rfl htr)
          rw [Files.setCursor_cursor, DskFile.offset_toNat]
          rfl
        · rw [hsame .moved rfl (by rw [hstage]; rfl)]
          exact h.inCall hstage htarget (extends_setCursor _ _ _)
            (fun file hne => setCursor_ne _ hne _) (fun hp => by cases hp)
            (h.damage.mono (extends_setCursor _ _ _) rfl htr)
      | _ => cases hallow
    | sought =>
      cases y' with
      | diskRead d lsn =>
        cases e with
        | readExact file n =>
          obtain ⟨rfl, rfl, htarget⟩ := hallow
          rcases hpoll with ⟨hr, -⟩ | ⟨a, f, hmay, hr, rfl⟩
          · cases hr
          cases hr
          have hcursor : ∃ pos, f = w.sys.files.setCursor d.file pos := by
            rcases hmay with heq | ⟨x, pos, -, hf⟩
            · rw [FileEff.answer] at heq
              split at heq
              · exact ⟨_, congrArg Prod.snd heq⟩
              · exact ⟨_, congrArg Prod.snd heq⟩
            · exact ⟨pos, hf⟩
          obtain ⟨pos, rfl⟩ := hcursor
          rw [hsame .moved rfl (by rw [hstage]; rfl)]
          exact h.inCall hstage htarget (extends_setCursor _ _ _)
            (fun file hne => setCursor_ne _ hne _) (fun hp => by cases hp)
            (h.damage.mono (extends_setCursor _ _ _) rfl htr)
        | _ => cases hallow
      | diskWrite d lsn data =>
        cases e with
        | writeAll file bs =>
          obtain ⟨rfl, rfl, rfl, htarget⟩ := hallow
          rcases hpoll with ⟨hr, -⟩ | ⟨a, f, ⟨k, rfl⟩, hr, rfl⟩
          · cases hr
          cases hr
          rw [hsame .moved rfl (by rw [hstage]; rfl)]
          obtain ⟨hfits, -, hcursor⟩ := h.held t _ _ d lsn hstage htarget
          obtain ⟨hext, hdamage⟩ := h.damage.step (t := t) (r := r) hfits htarget k
          have htorn : (w.sys.files.setBytes (w.sys.files.inode d.file) (overwrite 0
              (w.sys.files.content d.file) (w.sys.files.cursor d.file)
              (data.toList.take k))).setCursor d.file
                (w.sys.files.cursor d.file + (data.toList.take k).length) =
              torn w.sys.files d.file (lsn.val.toNat * sectorSize) (data.toList.take k) := by
            rw [torn, ← hcursor rfl]
          rw [htorn]
          exact h.inCall hstage htarget hext (fun file hne => setCursor_ne _ hne _)
            (fun hp => by cases hp) hdamage
        | _ => cases hallow
      | _ => cases hallow
    | moved =>
      cases e with
      | flush file =>
        rcases hpoll with ⟨hr, -⟩ | ⟨a, f, hf, hr, rfl⟩
        · cases hr
        cases hr
        cases (hf : f = w.sys.files)
        refine h.still htr rfl h.mounted ?_ (.inl ?_)
        · intro d hd
          rw [Doing.next, hstage] at hd
          exact h.known t d hd
        · simp [Doing.next, Stage.next]
      | unlock file =>
        obtain ⟨rfl, d, lsn, htarget, rfl⟩ := hallow
        obtain ⟨-, rfl⟩ := hpoll
        have hnext : (g t).next (.disk y (.unlock d.file)) r = ⟨(g t).known, .free⟩ := by
          simp [Doing.next, hstage, Stage.found, Stage.next]
        rw [hnext]
        exact h.unlock htr hstage htarget
      | _ => cases hallow

variable {rest : Env DskFile Unit N}

/-- Only a MOUNT puts a disk into the table. -/
theorem mounted_after {e : Eff DskFile} {s : Server DskFile} {slot : UInt8} {d : DskFile}
    (h : (e.serverAfter s).drives slot = some d) :
    s.drives slot = some d ∨ e = .op (.driveInsert slot d) := by
  cases e with
  | op o =>
    cases o with
    | driveInsert slot' d' =>
      have hd : Function.update s.drives slot' (some d') slot = some d := h
      by_cases hslot : slot = slot'
      · subst hslot
        rw [Function.update_self] at hd
        cases hd
        exact .inr rfl
      · rw [Function.update_of_ne hslot] at hd
        exact .inl hd
    | driveRemove slot' =>
      have hd : Function.update s.drives slot' none slot = some d := h
      by_cases hslot : slot = slot'
      · subst hslot
        rw [Function.update_self] at hd
        cases hd
      · rw [Function.update_of_ne hslot] at hd
        exact .inl hd
    | _ => exact .inl h
  | _ => exact .inl h

/-- A task finds out about a disk only when it looks it up. -/
theorem known_after (st : Doing) {e : Eff DskFile} {r : e.Res} :
    (st.next (.server e) r).stage = st.stage ∧ ∀ d, d ∈ (st.next (.server e) r).known →
      d ∈ st.known ∨ ∃ slot, e = .op (.driveGet slot) ∧ HEq r (some d) := by
  cases e with
  | op o =>
    cases o with
    | driveGet slot =>
      cases r with
      | none => exact ⟨rfl, fun d hd => .inl hd⟩
      | some d' =>
        refine ⟨rfl, fun d hd => ?_⟩
        rcases List.mem_cons.mp hd with rfl | hd
        · exact .inr ⟨slot, rfl, HEq.rfl⟩
        · exact .inl hd
    | _ => exact ⟨rfl, fun d hd => .inl hd⟩
  | _ => exact ⟨rfl, fun d hd => .inl hd⟩

/-- **Step lemma**: so does every other effect of the server. -/
theorem Confined.server_ready (h : Confined f₀ tr g w) {t : Tid} {e : Eff DskFile} {r : e.Res}
    (hallow : (g t).stage.Allows (g t).known (.server e))
    (hpoll : poll (besideFiles rest) t e w (.ready r) w') :
    Confined f₀ (tr ++ [(t, ⟨.server e, r⟩)])
      (Function.update g t ((g t).next (.server e) r)) w' := by
  have hinsert : ∀ slot d, e = .op (.driveInsert slot d) → d ∈ (g t).known := by
    rintro slot d rfl
    cases hstage : (g t).stage with
    | free =>
      rw [hstage] at hallow
      exact hallow
    | opened path ro file =>
      rw [hstage] at hallow
      cases hallow
    | held y p =>
      rw [hstage] at hallow
      cases y <;> cases p <;> cases hallow
  obtain ⟨hstage, hknown⟩ := known_after (g t) (r := r)
  refine h.still (List.subset_append_left _ _) (poll_besideFiles hpoll) ?_ ?_ (.inl hstage)
  · intro slot d hd
    rw [poll_server hpoll] at hd
    rcases mounted_after hd with hd | he
    · exact h.mounted slot d hd
    · exact h.known t d (hinsert slot d he)
  · intro d hd
    rcases hknown d hd with hd | ⟨slot, rfl, hr⟩
    · exact h.known t d hd
    · -- it is what the table has
      obtain ⟨hready, -⟩ := hpoll
      cases hready
      exact h.mounted slot d (eq_of_heq hr)

/-- A task that waits in a disk call has changed nothing. -/
theorem pollFaulty_pending {t : Tid} {e : FileEff} {s s' : Disks}
    (h : pollFaulty t e s .pending s') : s' = s := by
  cases e with
  | lock file =>
    rcases h with ⟨-, hs⟩ | ⟨-, hr, -⟩
    · exact hs
    · cases hr
  | unlock file => cases h.1
  | _ =>
    rcases h with ⟨-, hs⟩ | ⟨a, f, -, hr, -⟩
    · exact hs
    · cases hr

section runs

variable [UnicodeTables]

def faultyDiscipline (rest : Env DskFile Unit N) : Discipline (faultySystem rest) Doing where
  toProtocol := failing
  off        := ⟨[], .free⟩
  gone       := ⟨[], .free⟩
  enter      := fun _ => ⟨[], .free⟩
  leave      := fun _ _ st => st.stage = .free
  body_obeys := body_failing

theorem faultyDiscipline_keeps (rest : Env DskFile Unit N) :
    (faultyDiscipline rest).KeepsAlong anyStep (Confined f₀) where
  start := fun tr g w t h _ _ =>
    h.still (List.Subset.refl _) rfl h.mounted (fun d hd => absurd hd List.not_mem_nil) (.inr rfl)
  again := fun tr g w t h _ =>
    h.still (List.Subset.refl _) rfl h.mounted (fun d hd => absurd hd List.not_mem_nil) (.inr rfl)
  exit := fun tr g w t r h _ =>
    h.still (List.Subset.refl _) rfl h.mounted (fun d hd => absurd hd List.not_mem_nil) (.inr rfl)
  pending := by
    intro tr g w t e w' h _ hpoll
    have hkept : w'.server = w.server ∧ w'.sys = w.sys := by
      cases e with
      | server e => exact ⟨poll_pending_server hpoll, poll_besideFiles hpoll⟩
      | disk y e =>
        obtain ⟨s, hs, rfl⟩ := hpoll
        exact ⟨rfl, pollFaulty_pending hs⟩
    have hsame : Confined f₀ tr (Function.update g t (g t)) w' :=
      h.still (List.Subset.refl _) hkept.2 (by rw [hkept.1]; exact h.mounted) (h.known t)
        (.inl rfl)
    rwa [Function.update_eq_self] at hsame
  ready := by
    intro tr c g t e k r w' h _ _ hallow _ hpoll
    refine ⟨trivial, ?_⟩
    -- the server's own effects leave the files alone
    cases e with
    | server e => exact h.server_ready hallow hpoll
    | disk y e =>
      obtain ⟨s, hs, rfl⟩ := hpoll
      exact h.disk_ready hallow hs
  ambient := by
    rintro tr g w w' h ⟨n, -, rfl⟩
    exact ⟨h.mounted, h.known, h.opened, h.held, h.damage⟩

/-- **Failures are confined.**  In every run from files that have the sectors
    that the mounted disks count, whatever operation on a file fails, wherever
    a write stops in the middle, and whatever is mounted and unmounted
    meanwhile, every file keeps its size, and a byte that is not the one it
    started with was written there by a WRITE call, on a disk that is not
    read-only, for the sector that the byte belongs to. -/
theorem damage_confined {server : Server DskFile}
    (hfits : ∀ slot d, server.drives slot = some d → Fits f₀ d) {n : N}
    {c : Config Tid FineEff FineEff.Res (World DskFile Disks N) Exit}
    (hrun : Run (faultySystem rest) anyStep
      (Config.initial (World.initial server ⟨f₀, fun _ => none⟩ n)) tr c) (i : Inode) :
    (c.world.sys.files.bytes i).length = (f₀.bytes i).length ∧
    ∀ pos, (c.world.sys.files.bytes i)[pos]? = (f₀.bytes i)[pos]? ∨
      ∃ t d lsn data r j b,
        (t, ⟨.disk (.diskWrite d lsn data) (.writeAll d.file data.toList), r⟩) ∈ tr ∧
        d.readOnly = false ∧ lsn.val < d.sectorCount ∧ c.world.sys.files.inode d.file = i ∧
        pos = lsn.val.toNat * sectorSize + j ∧ data.toList[j]? = some b ∧
        (c.world.sys.files.bytes i)[pos]? = some b := by
  have hstart : Confined f₀ [] (fun _ => ⟨[], .free⟩)
      (World.initial server ⟨f₀, fun _ => none⟩ n) := by
    refine ⟨hfits, fun t d hd => absurd hd List.not_mem_nil, fun t path ro file h => ?_,
      fun t y p d lsn h => ?_, fun i => ⟨rfl, fun pos => .inl rfl⟩⟩
    · cases h
    · cases h
  obtain ⟨g, hg, -⟩ := (faultyDiscipline rest).run_along (faultyDiscipline_keeps rest) hrun
    ((faultyDiscipline rest).holds_initial hstart)
  obtain ⟨hlength, hbytes⟩ := hg.damage i
  refine ⟨hlength, fun pos => ?_⟩
  rcases hbytes pos with hsame | ⟨b, hb, t, d, lsn, data, r, j, hmem, htarget, -, hi, hpos, hj⟩
  · exact .inl hsame
  · cases htarget with
    | write data hro hlsn =>
      exact .inr ⟨t, d, lsn, data, r, j, b, hmem, hro, hlsn, hi, hpos, hj, hb⟩

end runs

/-! ## Section 7: A torn write -/

/-- Three bytes of a write get through. -/
def tornPoll (t : Tid) : (e : FileEff) → Disks → Poll e.Res × Disks
  | .writeAll h bs, s =>
    (.ready (.error brokenPipe), { s with files := torn s.files h (s.files.cursor h) (bs.take 3) })
  | e, s => filePoll t e s

theorem tornPoll_spec (t : Tid) (e : FileEff) (s : Disks) :
    pollFaulty t e s (tornPoll t e s).1 (tornPoll t e s).2 := by
  cases e with
  | lock h => exact filePoll_spec t (.lock h) s
  | unlock h => exact ⟨rfl, rfl⟩
  | writeAll h bs => exact .inr ⟨_, _, ⟨3, rfl⟩, rfl, rfl⟩
  | flush h => exact .inr ⟨_, _, rfl, rfl, rfl⟩
  | metadataLen h => exact .inr ⟨_, _, ⟨rfl, .inl rfl⟩, rfl, rfl⟩
  | seek h pos => exact .inr ⟨_, _, .inl ⟨rfl, rfl⟩, rfl, rfl⟩
  | _ => exact .inr ⟨_, _, .inl rfl, rfl, rfl⟩

def tornFine (t : Tid) : (e : FineEff) → World DskFile Disks (Tid → Peer) →
    Poll e.Res × World DskFile Disks (Tid → Peer)
  | .server e, w => besideScripts.poll t e w
  | .disk _ e, w => ((tornPoll t e w.sys).1, { w with sys := (tornPoll t e w.sys).2 })

theorem tornFine_spec (t : Tid) (e : FineEff) (w : World DskFile Disks (Tid → Peer)) :
    pollFaultyFine scriptedRest t e w (tornFine t e w).1 (tornFine t e w).2 := by
  cases e with
  | server e => exact besideScripts.poll_spec t e w
  | disk y e => exact ⟨_, tornPoll_spec t e w.sys, rfl⟩

abbrev tornDisks : Runtime Tid FineEff FineEff.Res (World DskFile Disks (Tid → Peer)) Exit :=
  @faultySystem (Tid → Peer) asciiTables scriptedRest

def tornTurns : List Tid := List.replicate 20 (Tid.guest 0)

def tornLabels : List FineLabel :=
  scheduleLabels tornDisks tornFine Answers.start fineStart tornTurns

theorem twoImages_fits (slot : UInt8) (d : DskFile) (h : twoImages.drives slot = some d) :
    Fits twoFiles d := by
  have hcontent := twoFiles_length d.file
  rcases twoImages_drives h with ⟨-, rfl⟩ | ⟨-, rfl⟩
  · exact ⟨by decide, by rw [hcontent]; decide⟩
  · exact ⟨by decide, by rw [hcontent]; decide⟩

set_option maxRecDepth 100000 in
/-- The guest is told that its WRITE failed, and three bytes of its sector
    have changed. -/
theorem damage_confined_torn : ∃ c, Run tornDisks anyStep fineStart tornLabels c ∧
    (c.world.net (.guest 0)).received = [0xF5] ∧
    c.world.sys.files.bytes 0 =
      List.replicate 256 0 ++ List.replicate 3 7 ++ List.replicate 253 0 ∧
    ∃ t d lsn data r j b,
      (t, ⟨.disk (.diskWrite d lsn data) (.writeAll d.file data.toList), r⟩) ∈ tornLabels ∧
      d.readOnly = false ∧ lsn.val < d.sectorCount ∧ c.world.sys.files.inode d.file = 0 ∧
      256 = lsn.val.toNat * sectorSize + j ∧ data.toList[j]? = some b ∧
      (c.world.sys.files.bytes 0)[256]? = some b := by
  have hrun : Run tornDisks anyStep fineStart tornLabels _ :=
    run_schedule tornFine_spec besideScripts.start_spec fineStart tornTurns
      (scheduleMeets_any fineStart tornTurns)
  have hdamage := (@damage_confined _ _ _ _ asciiTables _ twoImages_fits _ _ hrun 0).2 256
  refine ⟨_, hrun, rfl, rfl, ?_⟩
  rcases hdamage with hsame | hwrote
  · cases hsame
  · exact hwrote

end Faults

end DriveWire
