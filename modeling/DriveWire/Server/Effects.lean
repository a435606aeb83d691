import DriveWire.Async.Prog
import DriveWire.Proto

/-! # Server State and Effects

    The data of `Server`, and the effect signature of everything that runs
    against it.  An effect is either an await point (transport I/O, taking a
    lock, waiting for a wake-up, a disk call) or a piece of synchronous code
    between two of them: the body of a guard's scope, the drop of a guard, a
    `notify_one`.  A guard's scope is one `Op`, because no source function
    awaits between two accesses to the data of one guard.

    `D` is the type of the mounted disk handles (`Arc<dyn VDisk>`). -/

namespace DriveWire

open Async

/-! ## Section 1: Errors and plain data -/

def sectorSize : Nat := 256

abbrev Sector : Type := Vector UInt8 sectorSize

/-- The contents of a `String`, a `&str` or a `PathBuf`. -/
abbrev Text : Type := List Char

/-- A string literal as text. -/
def str (s : String) : Text := s.toList

/-- The sector a failing READ is answered with. -/
def zeroSector : Sector := Vector.replicate sectorSize 0

/-- The `std::io::ErrorKind`s that the code looks at or makes itself. -/
inductive ErrorKind where
  | unexpectedEof | brokenPipe | interrupted | other
  deriving DecidableEq, Repr

structure IoError where
  kind    : ErrorKind
  message : Text
  deriving DecidableEq, Repr

/-- What `read_exact` reports at the end of a stream. -/
def earlyEof : IoError := ⟨.unexpectedEof, str "early eof"⟩

inductive VDiskError where
  | outOfRange : Lsn → VDiskError
  | readOnly   : VDiskError
  | io         : IoError → VDiskError
  deriving DecidableEq, Repr

inductive ServerError where
  | eof           : ServerError
  | unknownOpcode : UInt8 → ServerError
  | io            : IoError → ServerError
  deriving DecidableEq, Repr

/-- The fields of `time::OffsetDateTime` that `handle_time` reads. -/
structure OffsetDateTime where
  year   : Int
  month  : UInt8
  day    : UInt8
  hour   : UInt8
  minute : UInt8
  second : UInt8

/-- The synchronous half of the `VDisk` trait. -/
class VDisk (D : Type) where
  sectorCount : D → UInt32
  name        : D → Text

/-! ## Section 2: The server's data -/

/-- `VSERIAL_CHANNELS` -/
def vserialChannels : Nat := 16

instance : NeZero vserialChannels := ⟨by decide⟩

/-- A channel index that passed the `idx >= VSERIAL_CHANNELS` test. -/
abbrev Channel : Type := Fin vserialChannels

/-- The data behind the locks of `Server`. -/
structure Server (D : Type) where
  drives        : UInt8 → Option D
  printBuffer   : List UInt8
  vserialInbox  : Channel → List UInt8
  vserialOutbox : Channel → List UInt8
  vserialOpen   : Channel → Bool

/-- `Server::default` -/
def Server.new (D : Type) : Server D where
  drives        := fun _ => none
  printBuffer   := []
  vserialInbox  := fun _ => []
  vserialOutbox := fun _ => []
  vserialOpen   := fun _ => false

inductive Lock where
  | drives | printBuffer | vserialInbox | vserialOutbox | vserialOpen
  deriving DecidableEq, Repr

/-- `RwLock::read` is shared; `RwLock::write` and `Mutex::lock` are exclusive. -/
inductive Mode where
  | shared | exclusive
  deriving DecidableEq, Repr

/-! ## Section 3: Code inside a guard's scope -/

/-- What the loop of `handle_serread` found and did. -/
inductive Scan where
  | empty : Scan
  | byte  : Channel → UInt8 → Scan
  | burst : Channel → UInt8 → Scan
  deriving DecidableEq, Repr

/-- The loop of `handle_serread` over the channels that are left: the first
    non-empty queue gives up its front byte, or is only counted. -/
def scanOutbox : List Channel → (Channel → List UInt8) → Scan × (Channel → List UInt8)
  | [], out => (.empty, out)
  | idx :: rest, out =>
    match out idx with
    | [] => scanOutbox rest out
    | byte :: tail =>
      if (out idx).length < 3 then (.byte idx byte, Function.update out idx tail)
      else (.burst idx (UInt8.ofNat (min (out idx).length 255)), out)

/-- `n` successive `pop_front`s. -/
def popFronts : (n : Nat) → List UInt8 → Vector (Option UInt8) n × List UInt8
  | 0, q => (#v[], q)
  | n + 1, q => ((popFronts n q).1.push (popFronts n q).2.head?, (popFronts n q).2.tail)

/-- One guard's scope of the source. -/
inductive Op (D : Type) where
  | driveGet       : UInt8 → Op D
  | driveInsert    : UInt8 → D → Op D
  | driveRemove    : UInt8 → Op D
  | driveRows      : Op D
  | printPush      : UInt8 → Op D
  | printTake      : Op D
  | inboxPushBack  : Channel → UInt8 → Op D
  | inboxExtend    : Channel → List UInt8 → Op D
  | inboxDrain     : Channel → Op D
  | inboxLens      : Op D
  | outboxExtend   : Channel → List UInt8 → Op D
  | outboxScan     : Op D
  | outboxPop      : Channel → Nat → Op D
  | outboxLens     : Op D
  | openSet        : Channel → Bool → Op D
  | openClone      : Op D

/-- What the code after the scope uses of it. -/
@[reducible] def Op.Res {D : Type} : Op D → Type
  | .driveGet _ => Option D
  | .driveRows => List (UInt8 × D)
  | .printTake => List UInt8
  | .inboxDrain _ => List UInt8
  | .inboxLens => Channel → Nat
  | .outboxScan => Scan
  | .outboxPop _ n => Vector (Option UInt8) n
  | .outboxLens => Channel → Nat
  | .openClone => Channel → Bool
  | _ => Unit

/-- The mounted drives in slot order, as `drive_summary` sorts them. -/
def mountedRows {D : Type} (drives : UInt8 → Option D) : List (UInt8 × D) :=
  (List.range 256).filterMap fun n => (drives (UInt8.ofNat n)).map fun d => (UInt8.ofNat n, d)

theorem mem_mountedRows {D : Type} {drives : UInt8 → Option D} {r : UInt8 × D} :
    r ∈ mountedRows drives ↔ drives r.1 = some r.2 := by
  rw [mountedRows, List.mem_filterMap]
  constructor
  · rintro ⟨n, -, hr⟩
    obtain ⟨d, hd, rfl⟩ := Option.map_eq_some_iff.mp hr
    exact hd
  · intro h
    refine ⟨r.1.toNat, List.mem_range.mpr r.1.toNat_lt, ?_⟩
    rw [UInt8.ofNat_toNat, h]
    rfl

/-- The effect of a guard's scope on the data. -/
def Op.run {D : Type} : (o : Op D) → Server D → o.Res × Server D
  | .driveGet slot, s => (s.drives slot, s)
  | .driveInsert slot d, s => ((), { s with drives := Function.update s.drives slot (some d) })
  | .driveRemove slot, s => ((), { s with drives := Function.update s.drives slot none })
  | .driveRows, s => (mountedRows s.drives, s)
  | .printPush b, s => ((), { s with printBuffer := s.printBuffer ++ [b] })
  | .printTake, s => (s.printBuffer, { s with printBuffer := [] })
  | .inboxPushBack c b, s =>
    ((), { s with vserialInbox := Function.update s.vserialInbox c (s.vserialInbox c ++ [b]) })
  | .inboxExtend c bs, s =>
    ((), { s with vserialInbox := Function.update s.vserialInbox c (s.vserialInbox c ++ bs) })
  | .inboxDrain c, s =>
    (s.vserialInbox c, { s with vserialInbox := Function.update s.vserialInbox c [] })
  | .inboxLens, s => (fun c => (s.vserialInbox c).length, s)
  | .outboxExtend c bs, s =>
    ((), { s with vserialOutbox := Function.update s.vserialOutbox c (s.vserialOutbox c ++ bs) })
  | .outboxScan, s =>
    let r := scanOutbox (List.finRange vserialChannels) s.vserialOutbox
    (r.1, { s with vserialOutbox := r.2 })
  | .outboxPop c n, s =>
    let r := popFronts n (s.vserialOutbox c)
    (r.1, { s with vserialOutbox := Function.update s.vserialOutbox c r.2 })
  | .outboxLens, s => (fun c => (s.vserialOutbox c).length, s)
  | .openSet c b, s => ((), { s with vserialOpen := Function.update s.vserialOpen c b })
  | .openClone, s => (s.vserialOpen, s)

/-- The lock whose guard the scope belongs to. -/
def Op.lock {D : Type} : Op D → Lock
  | .driveGet _ | .driveInsert _ _ | .driveRemove _ | .driveRows => .drives
  | .printPush _ | .printTake => .printBuffer
  | .inboxPushBack _ _ | .inboxExtend _ _ | .inboxDrain _ | .inboxLens => .vserialInbox
  | .outboxExtend _ _ | .outboxScan | .outboxPop _ _ | .outboxLens => .vserialOutbox
  | .openSet _ _ | .openClone => .vserialOpen

/-! ## Section 4: Tasks and effects -/

/-- The tasks that share one server.  An attach session `n` has three: the
    listener's task that calls `handle_attach`, and the two that it spawns
    for its channel. -/
inductive Tid where
  | guest     : Nat → Tid
  | attach    : Nat → Tid
  | attachIn  : Nat → UInt8 → Tid
  | attachOut : Nat → UInt8 → Tid
  | control   : Nat → Tid
  | api       : Nat → Tid
  deriving DecidableEq, Repr

/-- A direct call of one of the host-side vserial functions. -/
inductive ApiCall where
  | drainVserial     : UInt8 → ApiCall
  | sendToVserial    : UInt8 → List UInt8 → ApiCall
  | vserialOutboxLen : UInt8 → ApiCall
  | isChannelOpen    : UInt8 → ApiCall

/-- Awaits on the task's own peer. -/
inductive Io where
  | readExact : Nat → Io
  | read      : Nat → Io
  | nextLine  : Io
  | writeAll  : List UInt8 → Io
  | nextCall  : Io

@[reducible] def Io.Res : Io → Type
  | .readExact n => Except IoError (Vector UInt8 n)
  | .read _ => Except IoError (List UInt8)
  | .nextLine => Except IoError (Option Text)
  | .writeAll _ => Except IoError Unit
  | .nextCall => ApiCall

/-- Calls of the mounted disks, the file system and the clock. -/
inductive Sys (D : Type) where
  | diskRead  : D → Lsn → Sys D
  | diskWrite : D → Lsn → Sector → Sys D
  | diskOpen  : Text → Bool → Sys D
  | nowLocal  : Sys D
  | nowUtc    : Sys D

@[reducible] def Sys.Res {D : Type} : Sys D → Type
  | .diskRead _ _ => Except VDiskError Sector
  | .diskWrite _ _ _ => Except VDiskError Unit
  | .diskOpen _ _ => Except VDiskError D
  | .nowLocal => Option OffsetDateTime
  | .nowUtc => OffsetDateTime

inductive Eff (D : Type) where
  | io        : Io → Eff D
  | sys       : Sys D → Eff D
  | lock      : Lock → Mode → Eff D
  | unlock    : Lock → Eff D
  | op        : Op D → Eff D
  | notifyOne : Channel → Eff D
  | notified  : Channel → Eff D
  | never     : Eff D
  | spawn     : Tid → Eff D
  | select    : Tid → Tid → Eff D

@[reducible] def Eff.Res {D : Type} : Eff D → Type
  | .io i => i.Res
  | .sys s => s.Res
  | .op o => o.Res
  | _ => Unit

/-- Code that runs against the server. -/
abbrev Code (D α : Type) : Type := Prog (Eff D) Eff.Res α

/-- Code that can leave early through `?`. -/
abbrev Handler (D α : Type) : Type := ExceptT ServerError (Prog (Eff D) Eff.Res) α

variable {D α : Type}

/-- Perform one effect. -/
def await (e : Eff D) : Code D e.Res := Prog.perform e

/-- Run `body` while holding the guard of `l`.  The guard is dropped at the
    end of its scope, however the scope is left. -/
def withLock (l : Lock) (m : Mode) (body : Code D α) : Code D α := do
  await (.lock l m)
  let a ← body
  await (.unlock l)
  return a

/-- A guard whose scope is a single access to its data. -/
def guarded (m : Mode) (o : Op D) : Code D o.Res := withLock o.lock m (await (.op o))

/-- Infallible code inside a handler. -/
def call (code : Code D α) : Handler D α := ExceptT.lift code

/-- `t.read_exact(..).await?` -/
def readExact (n : Nat) : Handler D (Vector UInt8 n) := ExceptT.mk do
  match ← await (.io (.readExact n)) with
  | .ok v => return .ok v
  | .error e => return .error (.io e)

/-- `t.write_all(..).await?` -/
def writeAll (bs : List UInt8) : Handler D Unit := ExceptT.mk do
  match ← await (.io (.writeAll bs)) with
  | .ok () => return .ok ()
  | .error e => return .error (.io e)

/-! ## Section 5: Handlers as trees -/

variable {β : Type}

theorem run_call_bind (code : Code D α) (f : α → Handler D β) :
    (call code >>= f).run = code >>= fun a => (f a).run := by
  rw [ExceptT.run_bind, call, ExceptT.run_lift, map_eq_pure_bind, bind_assoc]
  rfl

theorem run_call (code : Code D α) : (call code).run = code >>= fun a => Prog.ret (.ok a) := by
  rw [call, ExceptT.run_lift, map_eq_pure_bind]
  rfl

theorem run_readExact_bind (n : Nat) (f : Vector UInt8 n → Handler D β) :
    (readExact n >>= f).run = Prog.eff (.io (.readExact n)) fun r =>
      match r with
      | .ok v => (f v).run
      | .error e => Prog.ret (.error (.io e)) := by
  refine congrArg (Prog.eff _) (funext fun r => ?_)
  cases r <;> rfl

theorem run_writeAll_bind (bs : List UInt8) (f : Unit → Handler D β) :
    (writeAll bs >>= f).run = Prog.eff (.io (.writeAll bs)) fun r =>
      match r with
      | .ok () => (f ()).run
      | .error e => Prog.ret (.error (.io e)) := by
  refine congrArg (Prog.eff _) (funext fun r => ?_)
  cases r <;> rfl

theorem run_writeAll (bs : List UInt8) :
    (writeAll (D := D) bs).run = Prog.eff (.io (.writeAll bs)) fun r =>
      match r with
      | .ok () => Prog.ret (.ok ())
      | .error e => Prog.ret (.error (.io e)) := by
  refine congrArg (Prog.eff _) (funext fun r => ?_)
  cases r <;> rfl

theorem guarded_eq (m : Mode) (o : Op D) :
    guarded m o = Prog.eff (.lock o.lock m) fun _ =>
      Prog.eff (.op o) fun a => Prog.eff (.unlock o.lock) fun _ => Prog.ret a := rfl

end DriveWire
