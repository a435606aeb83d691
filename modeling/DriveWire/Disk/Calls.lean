import DriveWire.Disk.Requests

/-! # Disk Calls, Step by Step

    Reading and writing a sector is not atomic: the call locks the file, moves
    its cursor, transfers the bytes and unlocks it again, and other tasks run
    in between.  Its step on the sector is the transfer.  The server on files
    follows a protocol that says in which call each task is and how far it has
    got, and along it every iteration takes at most the one step that it was
    asked for. -/

namespace DriveWire

open Async Server Store

/-! ## Section 1: The steps of a run -/

/-- The step on a sector that an effect on files is: the transfer of its
    bytes. -/
def fileSteps (table : UInt8 → Option DskFile) :
    (y : Sys DskFile) → (e : FileEff) → e.Res → List SectorStep
  | .diskRead d lsn, .readExact _ _, .ok v => [.read (mountPoint table d, lsn) v.toList]
  | .diskWrite d lsn _, .writeAll _ bs, .ok () => [.write (mountPoint table d, lsn) bs]
  | _, _, _ => []

def eventSteps (table : UInt8 → Option DskFile) : FineEvent → List SectorStep
  | ⟨.disk y e, r⟩ => fileSteps table y e r
  | ⟨.server _, _⟩ => []

/-- The steps of all sessions, in the order in which they were taken. -/
def sectorSteps (table : UInt8 → Option DskFile) (tr : List FineLabel) : List SectorStep :=
  tr.flatMap fun l => eventSteps table l.2

/-! ## Section 2: A disk call, step by step -/

/-- How far the holder of a mutex has got. -/
inductive Transfer where
  | locked | sought | moved | flushed

/-- Whether a task is in a disk call. -/
inductive Hold where
  | free : Hold
  | held : Sys DskFile → Transfer → Hold

structure Doing where
  asked : Asked
  hold : Hold

/-- The handle of the image that is called. -/
def Sys.handle : Sys DskFile → Option Handle
  | .diskRead d _ => some d.file
  | .diskWrite d _ _ => some d.file
  | _ => none

/-- What is done next in a call. -/
def Sys.doing : Sys DskFile → Transfer → Option FileEff
  | .diskRead d lsn, .locked => some (.seek d.file (DskFile.offset lsn))
  | .diskRead d _, .sought => some (.readExact d.file sectorSize)
  | .diskRead d _, .moved => some (.unlock d.file)
  | .diskWrite d lsn _, .locked => some (.seek d.file (DskFile.offset lsn))
  | .diskWrite d _ data, .sought => some (.writeAll d.file data.toList)
  | .diskWrite d _ _, .moved => some (.flush d.file)
  | .diskWrite d _ _, .flushed => some (.unlock d.file)
  | _, _ => none

/-- Everything but the disk calls, which are code. -/
def Direct : Eff DskFile → Prop
  | .sys (.diskRead _ _) | .sys (.diskWrite _ _ _) | .sys (.diskOpen _ _) => False
  | _ => True

def Doing.Allows (table : UInt8 → Option DskFile) : Doing → FineEff → Prop
  | ⟨_, .free⟩, .server e => Direct e
  | ⟨a, .free⟩, .disk y (.lock h) => a.Allows table (.sys y) ∧ Permitted y ∧ y.handle = some h
  | ⟨_, .free⟩, .disk _ (.openFile _ _) => True
  | ⟨_, .free⟩, .disk _ (.metadataLen _) => True
  | ⟨_, .held y p⟩, .disk y' e => y' = y ∧ y.doing p = some e
  | _, _ => False

/-- The file operations of a call do not fail. -/
def Succeeds : (e : FileEff) → e.Res → Prop
  | .seek _ _, r => r = .ok ()
  | .readExact _ _, r => ∃ v, r = .ok v
  | .writeAll _ _, r => r = .ok ()
  | .flush _, r => r = .ok ()
  | _, _ => True

def FineAnswers (table : UInt8 → Option DskFile) : (e : FineEff) → e.Res → Prop
  | .server e, r => TableAnswers table e r
  | .disk _ e, r => Succeeds e r

def Hold.next (s : Hold) (y : Sys DskFile) : FileEff → Hold
  | .lock _ => .held y .locked
  | .seek _ _ => .held y .sought
  | .readExact _ _ => .held y .moved
  | .writeAll _ _ => .held y .moved
  | .flush _ => .held y .flushed
  | .unlock _ => .free
  | _ => s

def Doing.next (table : UInt8 → Option DskFile) (st : Doing) : (e : FineEff) → e.Res → Doing
  | .server (.io i), r => { st with asked := st.asked.hear i r }
  | .server _, _ => st
  | .disk y e, r =>
    { asked := { st.asked with steps := st.asked.steps ++ fileSteps table y e r }
      hold := st.hold.next y e }

def calling (table : UInt8 → Option DskFile) : Protocol FineEff FineEff.Res Doing where
  allows := Doing.Allows table
  admits := fun _ => FineAnswers table
  next   := Doing.next table

variable {N : Type} {table : UInt8 → Option DskFile}

/-- The call is for a sector of an image of the table, and is permitted. -/
inductive OnImage (table : UInt8 → Option DskFile) : Sys DskFile → DskFile → Lsn → Prop where
  | read  : ∀ {slot d lsn}, table slot = some d → lsn.val < d.sectorCount →
      OnImage table (.diskRead d lsn) d lsn
  | write : ∀ {slot d lsn} data, table slot = some d → d.readOnly = false →
      lsn.val < d.sectorCount → OnImage table (.diskWrite d lsn data) d lsn

theorem Asked.Allows.onImage {a : Asked} {y : Sys DskFile} {h : Handle}
    (hallow : a.Allows table (.sys y)) (hp : Permitted y) (hh : y.handle = some h) :
    ∃ d lsn, OnImage table y d lsn ∧ d.file = h := by
  cases y with
  | diskRead d lsn =>
    obtain ⟨op, -, hdr, -, hd, -⟩ := hallow
    exact ⟨d, lsn, .read hd hp, Option.some_inj.mp hh⟩
  | diskWrite d lsn data =>
    obtain ⟨op, -, hdr, sum, -, hd, -⟩ := hallow
    exact ⟨d, lsn, .write data hd hp.1 hp.2, Option.some_inj.mp hh⟩
  | _ => cases hp

/-- What holds at every point of an iteration. -/
structure Valid (table : UInt8 → Option DskFile) (st : Doing) : Prop where
  step  : OneStep table st.asked
  image : ∀ y p, st.hold = .held y p → ∃ d lsn, OnImage table y d lsn
  /-- Before the transfer the call is the one that was asked for. -/
  asked : ∀ y p, st.hold = .held y p → p = .locked ∨ p = .sought → st.asked.Allows table (.sys y)

theorem OneStep.hear {a : Asked} (h : OneStep table a) (i : Io) (r : i.Res) :
    OneStep table (a.hear i r) := by
  -- bytes that are read or written change what was heard and said, not the step
  cases i with
  | readExact n =>
    cases r with
    | error e => exact h
    | ok v =>
      cases h with
      | none h => exact .none h
      | read op hop hdr more d bytes hheard hd hlsn hsteps =>
        refine .read op hop hdr (more ++ v.toList) d bytes ?_ hd hlsn hsteps
        show a.heard ++ v.toList = _
        simp [hheard]
      | write op hop hdr data sum more hheard haccepted hsteps =>
        refine .write op hop hdr data sum (more ++ v.toList) ?_ haccepted hsteps
        show a.heard ++ v.toList = _
        simp [hheard]
  | writeAll bs =>
    cases r with
    | error e => exact h
    | ok u =>
      cases h with
      | none h => exact .none h
      | read op hop hdr more d bytes hheard hd hlsn hsteps =>
        exact .read op hop hdr more d bytes hheard hd hlsn hsteps
      | write op hop hdr data sum more hheard haccepted hsteps =>
        exact .write op hop hdr data sum more hheard haccepted hsteps
  | _ => exact h

/-- The transfer of a READ is its one step. -/
theorem oneStep_read (honce : MountedOnce table) {a : Asked} {d : DskFile} {lsn : Lsn}
    (h : a.Allows table (.sys (.diskRead d lsn))) (hlsn : lsn.val < d.sectorCount)
    (bytes : List UInt8) :
    OneStep table { a with steps := a.steps ++ [.read (mountPoint table d, lsn) bytes] } := by
  obtain ⟨op, hop, hdr, rfl, hd, rfl⟩ := h
  refine .read op hop hdr [] d bytes ?_ hd hlsn ?_
  · simp
  · rw [mountPoint_eq honce hd]
    rfl

/-- The transfer of a WRITE is its one step. -/
theorem oneStep_write (honce : MountedOnce table) {a : Asked} {d : DskFile} {lsn : Lsn}
    {data : Sector} (h : a.Allows table (.sys (.diskWrite d lsn data)))
    (hp : Permitted (.diskWrite d lsn data)) :
    OneStep table
      { a with steps := a.steps ++ [.write (mountPoint table d, lsn) data.toList] } := by
  obtain ⟨op, hop, hdr, sum, rfl, hd, rfl, hsum⟩ := h
  refine .write op hop hdr data sum [] ?_ ⟨hsum, d, hd, hp⟩ ?_
  · simp
  · rw [mountPoint_eq honce hd]
    rfl

/-- A call that goes on. -/
theorem valid_held {a : Asked} {y : Sys DskFile} {d : DskFile} {lsn : Lsn} {p : Transfer}
    (hstep : OneStep table a) (himage : OnImage table y d lsn)
    (hasked : p = .locked ∨ p = .sought → a.Allows table (.sys y)) :
    Valid table ⟨a, .held y p⟩ where
  step  := hstep
  image := fun y' p' heq => by
    cases heq
    exact ⟨d, lsn, himage⟩
  asked := fun y' p' heq hp => by
    cases heq
    exact hasked hp

/-- A task that is in no call. -/
theorem valid_free {a : Asked} (hstep : OneStep table a) : Valid table ⟨a, .free⟩ where
  step  := hstep
  image := fun _ _ heq => by cases heq
  asked := fun _ _ heq => by cases heq

theorem OnImage.permitted {y : Sys DskFile} {d : DskFile} {lsn : Lsn} (h : OnImage table y d lsn) :
    Permitted y := by
  cases h with
  | read _ hlsn => exact hlsn
  | write _ _ hro hlsn => exact ⟨hro, hlsn⟩

/-- The next effect of a call. -/
theorem Valid.next_held (honce : MountedOnce table) {a : Asked} {y : Sys DskFile} {p : Transfer}
    (h : Valid table ⟨a, .held y p⟩) {e : FileEff} {r : e.Res} (hdoing : y.doing p = some e)
    (hr : Succeeds e r) : Valid table (Doing.next table ⟨a, .held y p⟩ (.disk y e) r) := by
  obtain ⟨d, lsn, himage⟩ := h.image y p rfl
  have hp := himage.permitted
  -- an effect that transfers nothing leaves what was asked for alone
  have hsame : ∀ hold, fileSteps table y e r = [] → Valid table ⟨a, hold⟩ →
      Valid table ⟨{ a with steps := a.steps ++ fileSteps table y e r }, hold⟩ := by
    intro hold hnone hvalid
    rwa [hnone, List.append_nil]
  cases himage with
  | read hd hlsn =>
    cases p with
    | locked =>
      cases hdoing
      exact hsame _ rfl (valid_held h.step (.read hd hlsn) fun _ => h.asked _ _ rfl (.inl rfl))
    | sought =>
      cases hdoing
      obtain ⟨v, rfl⟩ : ∃ v, r = .ok v := hr
      have hstep := oneStep_read honce (h.asked _ _ rfl (.inr rfl)) hlsn v.toList
      exact valid_held hstep (.read hd hlsn) fun hp => by rcases hp with hp | hp <;> cases hp
    | moved =>
      cases hdoing
      exact hsame _ rfl (valid_free h.step)
    | flushed => cases hdoing
  | write data hd hro hlsn =>
    cases p with
    | locked =>
      cases hdoing
      exact hsame _ rfl
        (valid_held h.step (.write data hd hro hlsn) fun _ => h.asked _ _ rfl (.inl rfl))
    | sought =>
      cases hdoing
      cases (hr : r = .ok ())
      have hstep := oneStep_write honce (h.asked _ _ rfl (.inr rfl)) hp
      exact valid_held hstep (.write data hd hro hlsn) fun hp => by
        rcases hp with hp | hp <;> cases hp
    | moved =>
      cases hdoing
      exact hsame _ rfl
        (valid_held h.step (.write data hd hro hlsn) fun hp => by
          rcases hp with hp | hp <;> cases hp)
    | flushed =>
      cases hdoing
      exact hsame _ rfl (valid_free h.step)

/-- **Step lemma**: what a session does keeps this. -/
theorem Valid.next (honce : MountedOnce table) {st : Doing} (h : Valid table st) {e : FineEff}
    {r : e.Res} (hallow : st.Allows table e) (hr : FineAnswers table e r) :
    Valid table (st.next table e r) := by
  obtain ⟨a, hold⟩ := st
  -- outside a call a session may begin one; inside a call it goes through its phases
  cases hold with
  | free =>
    cases e with
    | server e =>
      cases e with
      | io i =>
        exact valid_free (h.step.hear i r)
      | _ => exact h
    | disk y e =>
      cases e with
      | lock handle =>
        obtain ⟨hasked, hp, hhandle⟩ := hallow
        -- the guard is taken for the sector that was asked for
        obtain ⟨d, lsn, himage, -⟩ := hasked.onImage hp hhandle
        have hsame : Doing.next table ⟨a, .free⟩ (.disk y (.lock handle)) r =
            ⟨a, .held y .locked⟩ := by
          simp [Doing.next, fileSteps, Hold.next]
        rw [hsame]
        exact valid_held h.step himage fun _ => hasked
      | openFile path write =>
        have hsame : Doing.next table ⟨a, .free⟩ (.disk y (.openFile path write)) r =
            ⟨a, .free⟩ := by
          simp [Doing.next, fileSteps, Hold.next]
        rwa [hsame]
      | metadataLen handle =>
        have hsame : Doing.next table ⟨a, .free⟩ (.disk y (.metadataLen handle)) r =
            ⟨a, .free⟩ := by
          simp [Doing.next, fileSteps, Hold.next]
        rwa [hsame]
      | _ => cases hallow
  | held y p =>
    cases e with
    | server e => cases hallow
    | disk y' e =>
      obtain ⟨rfl, hdoing⟩ := hallow
      exact h.next_held honce hdoing hr

end DriveWire
