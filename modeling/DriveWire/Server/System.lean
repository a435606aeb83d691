import DriveWire.Async.Protocol
import DriveWire.Server.Control

/-! # The Running Server

    All sessions of one server as interleaved tasks: guest sessions, attach
    sessions with the tasks they spawn, control sessions and direct callers.
    The locks and the wake-ups are tokio's; the peers, the disks and the
    clock are an environment that may answer, or not answer, in any way. -/

namespace DriveWire

open Async

/-! ## Section 1: Wake-ups -/

/-- `tokio::sync::Notify`: at most one stored permit, waiters in FIFO order,
    and the tasks that were woken but not polled since. -/
structure Notify where
  permit  : Bool
  waiters : List Tid
  woken   : List Tid

def Notify.new : Notify := ⟨false, [], []⟩

/-- `notify_one` -/
def Notify.notifyOne (n : Notify) : Notify :=
  match n.waiters with
  | [] => { n with permit := true }
  | t :: rest => { n with waiters := rest, woken := t :: n.woken }

/-- Polling the future of `notified` in task `t`. -/
def Notify.poll (n : Notify) (t : Tid) : Poll Unit × Notify :=
  if t ∈ n.woken then (.ready (), { n with woken := n.woken.erase t })
  else if t ∈ n.waiters then (.pending, n)
  else if n.permit then (.ready (), { n with permit := false })
  else (.pending, { n with waiters := n.waiters ++ [t] })

/-! ## Section 2: The world -/

structure World (D F N : Type) where
  server  : Server D
  holders : Lock → List (Tid × Mode)
  notify  : Channel → Notify
  sys     : F
  net     : N
  /-- Tasks that a running task has spawned. -/
  spawned : List Tid
  /-- Tasks that have finished. -/
  exited  : List Tid

variable {D F N : Type}

/-- The world around a server that no task has used yet. -/
def World.initial (s : Server D) (f : F) (net : N) : World D F N where
  server  := s
  holders := fun _ => []
  notify  := fun _ => .new
  sys     := f
  net     := net
  spawned := []
  exited  := []

/-- Whether a guard in mode `m` can be taken next to those that exist. -/
def World.free (w : World D F N) (l : Lock) : Mode → Prop
  | .exclusive => w.holders l = []
  | .shared => ∀ h ∈ w.holders l, h.2 = .shared

theorem World.free_of_nil {w : World D F N} {l : Lock} (h : w.holders l = []) (m : Mode) :
    w.free l m := by
  cases m with
  | exclusive => exact h
  | shared => simp [World.free, h]

def World.acquire (w : World D F N) (t : Tid) (l : Lock) (m : Mode) : World D F N :=
  { w with holders := Function.update w.holders l ((t, m) :: w.holders l) }

def World.release (w : World D F N) (t : Tid) (l : Lock) : World D F N :=
  { w with holders := Function.update w.holders l ((w.holders l).filter (·.1 ≠ t)) }

/-- What the code outside the repository does. -/
structure Env (D F N : Type) where
  /-- The peer of a task. -/
  net : Tid → (i : Io) → N → Poll i.Res → N → Prop
  /-- Disks, file system and clock. -/
  sys : Tid → (s : Sys D) → F → Poll s.Res → F → Prop
  /-- Connections that a listener accepts, and callers. -/
  connect : Tid → N → Prop
  /-- Steps of the peers alone. -/
  netStep : N → N → Prop

/-- Polling task `t` at an effect. -/
def poll (env : Env D F N) (t : Tid) : (e : Eff D) → World D F N → Poll e.Res → World D F N → Prop
  | .io i, w, r, w' => ∃ n, env.net t i w.net r n ∧ w' = { w with net := n }
  | .sys s, w, r, w' => ∃ f, env.sys t s w.sys r f ∧ w' = { w with sys := f }
  -- a waiting task is polled again, and any waiting task may get the lock
  | .lock l m, w, r, w' =>
    (r = .pending ∧ w' = w) ∨ (w.free l m ∧ r = .ready () ∧ w' = w.acquire t l m)
  | .unlock l, w, r, w' => r = .ready () ∧ w' = w.release t l
  | .op o, w, r, w' => r = .ready (o.run w.server).1 ∧ w' = { w with server := (o.run w.server).2 }
  | .notifyOne c, w, r, w' =>
    r = .ready () ∧ w' = { w with notify := Function.update w.notify c (w.notify c).notifyOne }
  | .notified c, w, r, w' =>
    r = ((w.notify c).poll t).1 ∧
      w' = { w with notify := Function.update w.notify c ((w.notify c).poll t).2 }
  | .never, w, r, w' => r = .pending ∧ w' = w
  | .spawn u, w, r, w' => r = .ready () ∧ w' = { w with spawned := u :: w.spawned }
  -- a task that has exited wakes the `select!`, which may take its time
  | .select u v, w, r, w' =>
    w' = w ∧ (r = .pending ∨ (r = .ready () ∧ (u ∈ w.exited ∨ v ∈ w.exited)))

/-! ## Section 3: The tasks -/

section tasks

variable [VDisk D] [UnicodeTables]

namespace Server

/-- Any error ends the session. -/
def flowOf : Except ServerError Unit → Flow Exit
  | .ok () => .again
  | .error e => .done (.session e)

omit [VDisk D] [UnicodeTables] in
/-- One iteration of the loop of `run`. -/
def guestOnce : Code D (Flow Exit) := do
  return flowOf (← runOnce.run)

omit [VDisk D] [UnicodeTables] in
/-- An iteration reads the opcode and enters an arm of the dispatch. -/
theorem guestOnce_eq : guestOnce (D := D) = Prog.eff (.io (.readExact 1)) fun r =>
    match r with
    | .ok v => (dispatch (Decoded.fromByte (byte0 v))).run >>= fun x => .ret (flowOf x)
    | .error e =>
      .ret (.done (.session (if e.kind = .unexpectedEof then .eof else .io e))) := by
  rw [guestOnce, runOnce_eq]
  refine congrArg (Prog.eff _) (funext fun r => ?_)
  cases r <;> rfl

/-- The loop body of each task. -/
def body : Tid → Code D (Flow Exit)
  | .guest _ => guestOnce
  | .attach n => attachSession n
  | .attachIn _ channel => inboundOnce channel
  | .attachOut _ channel => outboundOnce channel
  | .control _ => controlOnce
  | .api _ => apiCall

end Server

/-- A connection is accepted, or a spawned task starts. -/
def mayStart (env : Env D F N) : Tid → World D F N → Prop
  | .attachIn n channel, w => .attachIn n channel ∈ w.spawned
  | .attachOut n channel, w => .attachOut n channel ∈ w.spawned
  | t, w => env.connect t w.net

/-- The server with all its sessions. -/
def system (env : Env D F N) : Runtime Tid (Eff D) Eff.Res (World D F N) Exit where
  body     := Server.body
  poll     := poll env
  mayStart := mayStart env
  atExit   := fun t w => { w with exited := t :: w.exited }
  ambient  := fun w w' => ∃ n, env.netStep w.net n ∧ w' = { w with net := n }

end tasks

abbrev SysConfig (D F N : Type) : Type := Config Tid (Eff D) Eff.Res (World D F N) Exit

abbrev SysLabel (D : Type) : Type := Label Tid (E := Eff D) Eff.Res

/-! ## Section 4: What a step leaves alone -/

/-- The effect on the data behind the locks. -/
def Eff.serverAfter : Eff D → Server D → Server D
  | .op o, s => (o.run s).2
  | _, s => s

/-- The effect on the guards that exist. -/
def Eff.holdersAfter (t : Tid) :
    Eff D → (Lock → List (Tid × Mode)) → Lock → List (Tid × Mode)
  | .lock l m, holders => Function.update holders l ((t, m) :: holders l)
  | .unlock l, holders => Function.update holders l ((holders l).filter (·.1 ≠ t))
  | _, holders => holders

/-- The effect on the signals. -/
def Eff.notifyAfter (t : Tid) : Eff D → (Channel → Notify) → Channel → Notify
  | .notifyOne c, signals => Function.update signals c (signals c).notifyOne
  | .notified c, signals => Function.update signals c ((signals c).poll t).2
  | _, signals => signals

/-- The effect on the tasks that may start. -/
def Eff.spawnedAfter : Eff D → List Tid → List Tid
  | .spawn u, spawned => u :: spawned
  | _, spawned => spawned

section polls

variable {env : Env D F N} {t : Tid} {e : Eff D} {w w' : World D F N}

/-- **What a completed effect does to the server.** -/
theorem poll_ready {r : e.Res} (h : poll env t e w (.ready r) w') :
    w'.server = e.serverAfter w.server ∧ w'.holders = e.holdersAfter t w.holders ∧
      w'.notify = e.notifyAfter t w.notify ∧ w'.spawned = e.spawnedAfter w.spawned := by
  cases e with
  | io i => obtain ⟨n, -, rfl⟩ := h; exact ⟨rfl, rfl, rfl, rfl⟩
  | sys y => obtain ⟨f, -, rfl⟩ := h; exact ⟨rfl, rfl, rfl, rfl⟩
  | lock l m =>
    obtain ⟨hr, -⟩ | ⟨-, -, rfl⟩ := h
    · cases hr
    · exact ⟨rfl, rfl, rfl, rfl⟩
  | unlock l => obtain ⟨-, rfl⟩ := h; exact ⟨rfl, rfl, rfl, rfl⟩
  | op o => obtain ⟨-, rfl⟩ := h; exact ⟨rfl, rfl, rfl, rfl⟩
  | notifyOne c => obtain ⟨-, rfl⟩ := h; exact ⟨rfl, rfl, rfl, rfl⟩
  | notified c => obtain ⟨-, rfl⟩ := h; exact ⟨rfl, rfl, rfl, rfl⟩
  | never => obtain ⟨-, rfl⟩ := h; exact ⟨rfl, rfl, rfl, rfl⟩
  | spawn u => obtain ⟨-, rfl⟩ := h; exact ⟨rfl, rfl, rfl, rfl⟩
  | select u v => obtain ⟨rfl, -⟩ := h; exact ⟨rfl, rfl, rfl, rfl⟩

/-- **A task that stays suspended** has at most registered for a signal. -/
theorem poll_pending (h : poll env t e w .pending w') :
    w'.server = w.server ∧ w'.holders = w.holders ∧ w'.spawned = w.spawned ∧
      ((∀ c, e ≠ .notified c) → w'.notify = w.notify) := by
  cases e with
  | io i => obtain ⟨n, -, rfl⟩ := h; exact ⟨rfl, rfl, rfl, fun _ => rfl⟩
  | sys y => obtain ⟨f, -, rfl⟩ := h; exact ⟨rfl, rfl, rfl, fun _ => rfl⟩
  | lock l m =>
    obtain ⟨-, rfl⟩ | ⟨-, hr, -⟩ := h
    · exact ⟨rfl, rfl, rfl, fun _ => rfl⟩
    · cases hr
  | notified c => obtain ⟨-, rfl⟩ := h; exact ⟨rfl, rfl, rfl, fun he => absurd rfl (he c)⟩
  | never => obtain ⟨-, rfl⟩ := h; exact ⟨rfl, rfl, rfl, fun _ => rfl⟩
  | select u v => obtain ⟨rfl, -⟩ := h; exact ⟨rfl, rfl, rfl, fun _ => rfl⟩
  | _ => cases h.1

/-- Only transport effects reach the peers. -/
theorem poll_net {r : Poll e.Res} (h : poll env t e w r w') (he : ∀ i, e ≠ .io i) :
    w'.net = w.net := by
  cases e with
  | io i => exact absurd rfl (he i)
  | sys y => obtain ⟨f, -, rfl⟩ := h; rfl
  | lock l m => obtain ⟨-, rfl⟩ | ⟨-, -, rfl⟩ := h <;> rfl
  | select u v => obtain ⟨rfl, -⟩ := h; rfl
  | _ => obtain ⟨-, rfl⟩ := h; rfl

/-- Only system calls reach the disks and the clock. -/
theorem poll_sys {r : Poll e.Res} (h : poll env t e w r w') (he : ∀ y, e ≠ .sys y) :
    w'.sys = w.sys := by
  cases e with
  | io i => obtain ⟨n, -, rfl⟩ := h; rfl
  | sys y => exact absurd rfl (he y)
  | lock l m => obtain ⟨-, rfl⟩ | ⟨-, -, rfl⟩ := h <;> rfl
  | select u v => obtain ⟨rfl, -⟩ := h; rfl
  | _ => obtain ⟨-, rfl⟩ := h; rfl

/-- Only the code in a guard's scope changes the data behind the locks. -/
theorem poll_server {r : e.Res} (h : poll env t e w (.ready r) w') :
    w'.server = e.serverAfter w.server :=
  (poll_ready h).1

theorem poll_spawned {r : e.Res} (h : poll env t e w (.ready r) w') (he : ∀ u, e ≠ .spawn u) :
    w'.spawned = w.spawned := by
  rw [(poll_ready h).2.2.2]
  cases e with
  | spawn u => exact absurd rfl (he u)
  | _ => rfl

/-- A task that stays suspended changes nothing behind the locks. -/
theorem poll_pending_server (h : poll env t e w .pending w') : w'.server = w.server :=
  (poll_pending h).1

end polls

/-- A step without a label changes nothing behind the locks. -/
theorem step_silent_server [VDisk D] [UnicodeTables] {env : Env D F N} {c c' : SysConfig D F N}
    (h : Step (system env) c none c') : c'.world.server = c.world.server := by
  cases h with
  | start t _ _ => rfl
  | pending t e k w _ hpoll => exact poll_pending_server hpoll
  | again t _ => rfl
  | exit t r _ => rfl
  | ambient w hw => obtain ⟨n, _, rfl⟩ := hw; rfl

/-- A labelled step changes what its effect changes. -/
theorem step_server [VDisk D] [UnicodeTables] {env : Env D F N} {c c' : SysConfig D F N} {t : Tid}
    {e : Eff D} {r : e.Res} (h : Step (system env) c (some (t, ⟨e, r⟩)) c') :
    c'.world.server = e.serverAfter c.world.server := by
  cases h with
  | ready t e k r w _ hpoll => exact poll_server hpoll

/-- The result of a scope is computed from the data behind the lock. -/
theorem step_op [VDisk D] [UnicodeTables] {env : Env D F N} {c c' : SysConfig D F N} {t : Tid}
    {o : Op D} {r : o.Res} (h : Step (system env) c (some (t, ⟨.op o, r⟩)) c') :
    r = (o.run c.world.server).1 ∧ c'.world.server = (o.run c.world.server).2 := by
  cases h with
  | ready t e k r w _ hpoll =>
    obtain ⟨hr, rfl⟩ := hpoll
    cases hr
    exact ⟨rfl, rfl⟩

/-- Writes to the transports succeed. -/
def writesSucceed (_ : SysConfig D F N) (l : SysLabel D) : Prop :=
  match l.2 with
  | ⟨.io (.writeAll _), r⟩ => r = .ok ()
  | _ => True

/-! ## Section 5: A server without disks

    A concrete instance, for runs on fixed inputs. -/

/-- The one handle of a disk that has no sectors. -/
@[reducible] def noDisk : VDisk Unit where
  sectorCount := fun _ => 0
  name        := fun _ => []

/-- Only ASCII is printable. -/
@[reducible] def asciiTables : UnicodeTables where
  graphemeExtended := fun _ => false
  printable        := fun c => c.toNat < 128

abbrev plainSystem (env : Env Unit F N) : Runtime Tid (Eff Unit) Eff.Res (World Unit F N) Exit :=
  @system Unit F N noDisk asciiTables env

end DriveWire
